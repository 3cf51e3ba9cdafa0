/-
# `BullFrog.Protocol.Waiting` — who a waiting backend waits for

A backend that has left its scan raises its own migrate bits first and only then
sweeps `InProgLocalList1`, with no retry and no interrupt check, until every
tuple on it is migrated.  Two questions: is there somebody to wait for, and can
that somebody be waiting as well?

As long as every failing statement leaves through `txn_error_handling`, a claim
is held by a backend that is still working on it (`Pursued`): it has not
reached its own loop, because by then it owes nothing.  If in addition no lock bit is
cleared under a backend that has seen it set (`Queued`), the tuples on a wait
list stay claimed until they are migrated.

    no error at all            the claimant of a queued tuple is scanning or raising bits;
                               waiting is one level deep, so it has no cycle
    aborts that clear bits     a queued tuple can lose its claimant, and its waiter
                               then polls a bit that nobody is going to raise
-/
import BullFrog.Protocol.Barrier
import Mathlib.Data.Fintype.Basic
import Mathlib.Data.Set.Basic

namespace BullFrog

/-! ## Restrictions on a schedule -/

/-- Not an error. -/
def Action.errorFree : Action → Bool
  | .error _ => false
  | _ => true

/-- Not an error, or one that goes through `txn_error_handling`. -/
def Action.cleanExit : Action → Bool
  | .error x => x.callsTxnErrorHandling
  | _ => true

theorem Action.cleanExit_of_errorFree {a : Action} (h : a.errorFree = true) :
    a.cleanExit = true := by
  cases a <;> simp_all [errorFree, cleanExit]

namespace Pc

/-- Inside `PortalRun`. -/
def scanning : Pc → Bool
  | .idle | .setMigrate _ | .sweep _ _ | .freeLists | .ending | .resetLock _ => false
  | _ => true

/-- In the wait loop of `post_query_tasks`. -/
def waiting : Pc → Bool
  | .sweep _ _ => true
  | _ => false

/-- In code that runs in migration mode only. -/
def migrating : Pc → Bool
  | .idle | .scan | .ending => false
  | _ => true

end Pc

namespace Session

/-- `InProgLocalList1`, with the tuple that has been found locked and is about
to be appended. -/
def queued (s : Session) : List Eid :=
  match s.pc with
  | .releaseBusy e | .appendBusy e => s.inProgLocalList1 ++ [e]
  | _ => s.inProgLocalList1

/-- The tuple whose lock bit is set and which is not yet on `InProgLocalList0`. -/
def unlisted (s : Session) : Option Eid :=
  match s.pc with
  | .releaseClaimed e | .appendClaimed e => some e
  | _ => none

/-- The tuple whose lock bit `txn_error_handling` clears next. -/
def releasing (s : Session) : List Eid :=
  match s.pc with
  | .resetLock (e :: _) => [e]
  | _ => []

/-- The list a backend takes into the wait loop with its next step. -/
def entering (s : Session) : List Eid :=
  match s.pc with
  | .setMigrate [] => s.inProgLocalList1
  | _ => []

/-- Migration mode and the lists. -/
structure Mode (s : Session) : Prop where
  flag : s.pc.migrating = true → s.migrateflag = true
  list0 : s.migrateflag = false → s.inProgLocalList0 = []
  list1 : s.migrateflag = false → s.inProgLocalList1 = []

variable {bits : Key → Status} {s s' : Session} {a : Action} {eff : Effect} {e : Eid}

theorem Move.mode (h : Move bits s a s' eff) (hs : Mode s) : Mode s' := by
  obtain ⟨hf, h0, h1⟩ := hs
  cases h with
  | bind k hpc => exact ⟨by simp, by simp, by simp⟩
  | failUndo x hc hu =>
      simp only [mustUndo, Bool.and_eq_true] at hu
      exact ⟨fun _ => hu.1.2, h0, h1⟩
  | fail x hc hu => exact ⟨by simp [abort, Pc.migrating], h0, h1⟩
  | leaveLoop hpc _ | startSweep hpc _ =>
      have hf' : s.migrateflag = true :=
        hf (by rcases hpc with hpc | ⟨_, hpc⟩ <;> simp [hpc, Pc.migrating])
      exact ⟨fun _ => hf', h0, h1⟩
  | _ => constructor <;> simp_all [Pc.migrating, clear, abort]

/-- Between statements nothing is claimed. -/
def AtRest (s : Session) : Prop := s.pc = .idle ∨ s.pc = .ending → s.inProgLocalList0 = []

theorem Move.atRest (h : Move bits s a s' eff) (ha : a.cleanExit = true) (hs : Mode s)
    (hr : AtRest s) : AtRest s' := by
  cases h with
  | bind _ _ | freeLists _ | undone _ => exact fun _ => rfl
  | endOther _ hf => exact fun _ => hs.list0 hf
  | endStatement hpc _ => exact fun _ => hr (.inr hpc)
  | finishPending _ _ hpc _ | finishCommit _ _ hpc _ | finishDiscard _ _ hpc _ =>
      exact fun _ => hr (hpc.symm.imp And.right And.right)
  | fail x hc hu =>
      -- `txn_error_handling` was called and found nothing to undo
      intro _
      have hx : x.callsTxnErrorHandling = true := ha
      simp only [mustUndo, hx, Bool.true_and, Bool.and_eq_false_iff] at hu
      rcases hu with hu | hu
      · exact hs.list0 hu
      · simpa [abort] using hu
  | _ => simp [AtRest]

/-- A tuple is queued because it was queued or has just been found locked. -/
theorem Move.queued_from (h : Move bits s a s' eff) (hs : Sweeps s) (he : e ∈ s'.queued) :
    s'.bitmapNum = s.bitmapNum ∧
      (e ∈ s.queued ∨ ((bits (s.bitmapNum, e)).lock = true ∧ eff = .skip)) := by
  have list1 : s.queued = s.inProgLocalList1 ∨ ∃ e', s.queued = s.inProgLocalList1 ++ [e'] := by
    unfold queued; split <;> simp
  have keep : e ∈ s.inProgLocalList1 → e ∈ s.queued := by
    intro he'
    rcases list1 with hl | ⟨_, hl⟩ <;> simp [hl, he']
  cases h with
  | bind _ hpc => simp [queued, hpc] at he
  | freeLists _ | undone _ => simp [queued, clear, abort] at he
  | seenLocked e' hpc hl | foundLocked e' hpc hl =>
      simp only [queued, List.mem_append, List.mem_singleton] at he
      rcases he with he | rfl
      · exact ⟨rfl, .inl (keep he)⟩
      · exact ⟨rfl, .inr ⟨hl, rfl⟩⟩
  | releaseBusy e' hpc | appendBusy e' hpc => exact ⟨rfl, .inl (by simpa [queued, hpc] using he)⟩
  | deleteCell kept e' rest hpc _ =>
      refine ⟨rfl, .inl (keep ?_)⟩
      rw [hs.split kept _ hpc]
      simp only [queued, List.mem_append] at he
      exact List.mem_append.mpr (he.imp_right (List.mem_cons_of_mem _))
  | _ => exact ⟨rfl, .inl (keep (by simpa [queued, abort] using he))⟩

theorem Move.of_resetLock {k : BitmapNum} (h : Move bits s a s' (.resetLock k e)) :
    k = s.bitmapNum ∧ e ∈ s.releasing ∧ s'.undoing := by
  cases h with
  | resetLock _ todo hpc => exact ⟨rfl, by simp [releasing, hpc], todo, rfl⟩

theorem Move.not_undoing (h : Move bits s a s' eff) (ha : a.errorFree = true)
    (hu : ¬ s.undoing) : ¬ s'.undoing := by
  cases h with
  | bind _ _ => exact hu
  | resetLock _ _ hpc => exact absurd ⟨_, hpc⟩ hu
  | failUndo _ _ _ => cases ha
  | _ => rintro ⟨_, hpc⟩; simp [abort] at hpc

/-- A claim is on `InProgLocalList0` or about to be appended to it. -/
def Listed (s : Session) : Prop := ∀ e ∈ s.owed, e ∈ s.inProgLocalList0 ∨ s.unlisted = some e

theorem Move.listed (h : Move bits s a s' eff) (hs : Listed s) : Listed s' := by
  intro e he
  cases h with
  | leaveLoop _ _ | startSweep _ _ => simp [owed] at he
  | setLock e' _ | releaseClaimed e' _ =>
      simp only [owed, List.mem_append, List.mem_singleton] at he
      exact he.imp_right fun h => by rw [h]; rfl
  | setMigrate e' todo hpc | resetLock e' todo hpc =>
      have hmem : e ∈ s.owed := by
        simp only [owed, hpc]
        exact List.mem_cons_of_mem _ he
      exact (hs e hmem).imp_right fun h => by simp [unlisted, hpc] at h
  | _ => simp_all [owed, clear, abort]

/-- A tuple is on its way to `InProgLocalList0` because it was, or because its
lock bit has just been set. -/
theorem Move.unlisted_from (h : Move bits s a s' eff) (he : s'.unlisted = some e) :
    s'.bitmapNum = s.bitmapNum ∧ (s.unlisted = some e ∨ eff = .setLock s.bitmapNum e) := by
  cases h <;> simp_all [unlisted, clear, abort]

/-- The tuple is migrated, or the backend still owes it. -/
def Owes (bits : Key → Status) (s : Session) (r : Key) : Prop :=
  (bits r).migrate = true ∨ (r.1 = s.bitmapNum ∧ r.2 ∈ s.owed)

theorem Move.owes {r : Key} (h : Move bits s a s' eff) (hr : Owes bits s r)
    (hreset : eff ≠ .resetLock r.1 r.2) (hidle : s.pc = .idle → (bits r).migrate = true) :
    Owes (eff.onBits bits) s' r := by
  have keep : (bits r).migrate = true → Owes (eff.onBits bits) s' r :=
    fun hm => .inl (Effect.onBits_migrate.mpr (.inl hm))
  rcases hr with hm | ⟨hk', hr⟩
  · exact keep hm
  · have ho := h.owing
    cases eff with
    | setLock k e =>
        obtain ⟨rfl, hk, ho⟩ := ho
        exact .inr ⟨hk'.trans hk.symm, by rw [ho]; exact List.mem_append_left _ hr⟩
    | setMigrate k e =>
        obtain ⟨rfl, hk, ho⟩ := ho
        rw [ho] at hr
        rcases List.mem_cons.mp hr with hr | hr
        · exact .inl (Effect.onBits_migrate.mpr (.inr (by rw [hk', hr])))
        · exact .inr ⟨hk'.trans hk.symm, hr⟩
    | resetLock k e =>
        obtain ⟨rfl, hk, ho⟩ := ho
        rw [ho] at hr
        rcases List.mem_cons.mp hr with hr | hr
        · exact absurd (by rw [hk', hr]) hreset
        · exact .inr ⟨hk'.trans hk.symm, hr⟩
    | _ =>
        rcases ho with ⟨hk, ho⟩ | ⟨hpc, -⟩
        · exact .inr ⟨hk'.trans hk.symm, ho ▸ hr⟩
        · exact keep (hidle hpc)

/-- The wait loop is entered with the list as it is, and the list only shrinks in it. -/
theorem Move.waiting_from (h : Move bits s a s' eff) (hs : Sweeps s)
    (hw : s'.pc.waiting = true) :
    s'.bitmapNum = s.bitmapNum ∧ (s.pc.waiting = true ∨ s.pc = .setMigrate []) ∧
      ∀ e ∈ s'.inProgLocalList1, e ∈ s.inProgLocalList1 := by
  cases h with
  | bind _ hpc => simp [Pc.waiting, hpc] at hw
  | startSweep hpc _ =>
      refine ⟨rfl, ?_, fun _ => id⟩
      rcases hpc with hpc | ⟨_, hpc⟩ <;> simp [hpc, Pc.waiting]
  | deleteCell kept e rest hpc _ =>
      refine ⟨rfl, .inl (by rw [hpc]; rfl), ?_⟩
      intro e' he'
      rw [hs.split kept _ hpc]
      exact List.mem_append.mpr ((List.mem_append.mp he').imp_right (List.mem_cons_of_mem _))
  | keepCell kept e rest hpc _ => exact ⟨rfl, .inl (by rw [hpc]; rfl), fun _ => id⟩
  | _ => simp [Pc.waiting, abort] at hw

/-- The backend is still scanning, or has the tuple ahead of it in one of the two
loops that write its bits. -/
def Settling (s : Session) (e : Eid) : Prop :=
  s.pc.scanning = true ∨ (∃ todo, s.pc = .setMigrate todo ∧ e ∈ todo) ∨
    ∃ todo, s.pc = .resetLock todo ∧ e ∈ todo

theorem settling_of_owed (hr : AtRest s) (he : e ∈ s.owed) : s.Settling e := by
  cases hpc : s.pc with
  | idle => simp [owed, hpc, hr (.inl hpc)] at he
  | ending => simp [owed, hpc, hr (.inr hpc)] at he
  | setMigrate todo => exact .inr (.inl ⟨todo, hpc, by simpa [owed, hpc] using he⟩)
  | sweep _ _ | freeLists => simp [owed, hpc] at he
  | resetLock todo => exact .inr (.inr ⟨todo, hpc, by simpa [owed, hpc] using he⟩)
  | _ => exact .inl (by rw [hpc]; rfl)

theorem owed_of_waiting (h : s.pc.waiting = true) : s.owed = [] := by
  cases hpc : s.pc <;> simp_all [Pc.waiting, owed]

theorem queued_of_waiting (h : s.pc.waiting = true) : s.queued = s.inProgLocalList1 := by
  cases hpc : s.pc <;> simp_all [Pc.waiting, queued]

theorem undoing_of_releasing (h : e ∈ s.releasing) : s.undoing := by
  unfold releasing at h
  split at h
  · exact ⟨_, ‹_›⟩
  · cases h

theorem not_undoing_of_waiting (h : s.pc.waiting = true) : ¬ s.undoing := by
  rintro ⟨_, hpc⟩
  simp [hpc, Pc.waiting] at h

end Session

/-! ## Claims are pursued -/

section

variable {B : Type}

/-- Every claim is migrated already, or owed by its holder. -/
structure Pursued (g : System B) : Prop where
  mode : ∀ b, (g.sess b).Mode
  atRest : ∀ b, (g.sess b).AtRest
  held : ∀ b, ∀ r ∈ (g.sess b).held, (g.sess b).Owes g.bits r

theorem pursued_initial (bits₀ : Key → Status) : Pursued (System.initial bits₀ : System B) :=
  ⟨fun _ => ⟨by simp [System.initial, Pc.migrating], fun _ => rfl, fun _ => rfl⟩,
    fun _ _ => rfl, by simp [System.initial]⟩

variable {bits₀ : Key → Status} {g : System B} {b b' : B} {a : Action} {s' : Session}
  {eff : Effect} {e : Eid}

theorem Pursued.held_after (hO : Ownership bits₀ g) (hP : Pursued g)
    (hm : Session.Move g.bits (g.sess b) a s' eff) :
    ∀ r ∈ s'.held, s'.Owes (eff.onBits g.bits) r := by
  intro r hr
  rw [hm.held_eq] at hr
  have keep : r ∈ (g.sess b).held → eff ≠ .resetLock r.1 r.2 → s'.Owes (eff.onBits g.bits) r := by
    intro hr hne
    refine hm.owes (hP.held b r hr) hne ?_
    intro hpc
    rcases hP.held b r hr with h | ⟨-, h⟩
    · exact h
    · simp [Session.owed, hpc, hP.atRest b (.inl hpc)] at h
  cases eff with
  | setLock k e =>
      obtain ⟨rfl, hk, ho⟩ := hm.owing
      rcases List.mem_append.mp hr with hr | hr
      · exact keep hr (by simp)
      · obtain rfl := List.mem_singleton.mp hr
        exact .inr ⟨hk.symm, by rw [ho]; simp⟩
  | resetLock k e =>
      obtain ⟨hne, hr⟩ := (hO.held_nodup b).mem_erase_iff.mp hr
      exact keep hr fun h => hne (by cases h; rfl)
  | _ => exact keep hr (by simp)

/-! ## Queued tuples stay claimed -/

/-- The lock bit of the tuple `txn_error_handling` clears next was seen by no
other backend that is still counting on it. -/
def ReleaseUnseen (g : System B) (b : B) : Prop :=
  ∀ e ∈ (g.sess b).releasing, ∀ b', b' ≠ b →
    (g.sess b').bitmapNum = (g.sess b).bitmapNum → e ∉ (g.sess b').queued

/-- Every queued tuple is locked. -/
def Queued (g : System B) : Prop :=
  ∀ b, ¬ (g.sess b).undoing → ∀ e ∈ (g.sess b).queued,
    (g.bits ((g.sess b).bitmapNum, e)).lock = true

/-- What the two questions are answered from. -/
structure Waits (bits₀ : Key → Status) (g : System B) : Prop where
  ownership : Ownership bits₀ g
  covered : Covered g
  pursued : Pursued g
  queued : Queued g

theorem waits_initial (bits₀ : Key → Status) : Waits bits₀ (System.initial bits₀ : System B) :=
  ⟨ownership_initial bits₀, covered_initial bits₀, pursued_initial bits₀,
    by simp [Queued, System.initial, Session.queued]⟩

/-- A waiting backend waits for another one that owes the tuple. -/
theorem Waits.claimant (hW : Waits bits₀ g)
    (h₀ : ∀ r, (bits₀ r).lock = true → (bits₀ r).migrate = true)
    (hw : (g.sess b).pc.waiting = true) (he : e ∈ (g.sess b).inProgLocalList1)
    (hm : (g.bits ((g.sess b).bitmapNum, e)).migrate = false) :
    ∃ b', b' ≠ b ∧ (g.sess b').bitmapNum = (g.sess b).bitmapNum ∧
      ((g.sess b).bitmapNum, e) ∈ (g.sess b').held ∧ e ∈ (g.sess b').owed := by
  have hlock : (g.bits ((g.sess b).bitmapNum, e)).lock = true := by
    refine hW.queued b (Session.not_undoing_of_waiting hw) e ?_
    rw [Session.queued_of_waiting hw]
    exact he
  rcases (hW.ownership.lock_iff _).mp hlock with hl | ⟨b', hb'⟩
  · -- locked at the start means migrated at the start
    rw [hW.ownership.migrate_keep _ (h₀ _ hl)] at hm
    cases hm
  · rcases hW.pursued.held b' _ hb' with h | ⟨hk, ho⟩
    · rw [h] at hm; cases hm
    · refine ⟨b', ?_, hk.symm, hb', ho⟩
      rintro rfl
      rw [Session.owed_of_waiting hw] at ho
      cases ho

/-! ### One step -/

variable [DecidableEq B]

theorem Pursued.after (hO : Ownership bits₀ g) (hP : Pursued g)
    (hm : Session.Move g.bits (g.sess b) a s' eff) (ha : a.cleanExit = true) :
    Pursued (g.after b s' eff) where
  mode := forall_after (P := fun _ s => s.Mode) (hm.mode (hP.mode b)) fun b' _ => hP.mode b'
  atRest := forall_after (P := fun _ s => s.AtRest) (hm.atRest ha (hP.mode b) (hP.atRest b))
    fun b' _ => hP.atRest b'
  held := by
    refine forall_after (P := fun _ s => ∀ r ∈ s.held, s.Owes (eff.onBits g.bits) r)
      (hP.held_after hO hm) ?_
    intro b' _ r hr
    exact (hP.held b' r hr).imp_left fun h => Effect.onBits_migrate.mpr (.inl h)

theorem Queued.after (hC : Covered g) (hQ : Queued g)
    (hm : Session.Move g.bits (g.sess b) a s' eff) (hrel : ReleaseUnseen g b) :
    Queued (g.after b s' eff) := by
  have keep : ∀ r, (∀ e, eff = .resetLock r.1 e → e ≠ r.2) → (g.bits r).lock = true →
      (eff.onBits g.bits r).lock = true := by
    intro r hne h
    exact Effect.onBits_lock.mpr (.inr ⟨h, fun heq => hne r.2 heq rfl⟩)
  refine forall_after (P := fun _ s => ¬ s.undoing → ∀ e ∈ s.queued,
    (eff.onBits g.bits (s.bitmapNum, e)).lock = true) ?_ ?_
  · intro hu e he
    obtain ⟨hk, hfrom⟩ := hm.queued_from (hC.sweeps b) he
    rw [hk]
    rcases hfrom with hfrom | ⟨hl, rfl⟩
    · refine keep _ ?_ (hQ b ?_ e hfrom)
      · rintro e' rfl
        exact absurd hm.of_resetLock.2.2 hu
      · intro hu'
        rw [hm.undone_of hu' hu] at he
        simp [Session.queued, Session.clear, Session.abort] at he
    · exact hl
  · intro b' hb hu e he
    refine keep _ ?_ (hQ b' hu e he)
    rintro e' heff rfl
    subst heff
    obtain ⟨hk, hmem, -⟩ := hm.of_resetLock
    exact hrel _ hmem b' hb hk he

theorem Waits.after (hW : Waits bits₀ g) (hm : Session.Move g.bits (g.sess b) a s' eff)
    (hen : eff.enabled g.lwlock = true) (ha : a.cleanExit = true) (hrel : ReleaseUnseen g b) :
    Waits bits₀ (g.after b s' eff) :=
  ⟨hW.ownership.after hm hen, hW.covered.after hm, hW.pursued.after hW.ownership hm ha,
    hW.queued.after hW.covered hm hrel⟩

/-! ## Without errors -/

/-- `b` is in its wait loop on account of a tuple `b'` has claimed. -/
def WaitsOn (g : System B) (b b' : B) : Prop :=
  (g.sess b).pc.waiting = true ∧ ∃ e ∈ (g.sess b).inProgLocalList1,
    (g.bits ((g.sess b).bitmapNum, e)).migrate = false ∧
    ((g.sess b).bitmapNum, e) ∈ (g.sess b').held

/-- A step that is no error, while nobody is undoing anything. -/
theorem Waits.after_errorFree (hW : Waits bits₀ g) (hu : ∀ b, ¬ (g.sess b).undoing)
    (hm : Session.Move g.bits (g.sess b) a s' eff) (hen : eff.enabled g.lwlock = true)
    (ha : a.errorFree = true) :
    Waits bits₀ (g.after b s' eff) ∧ ∀ b', ¬ ((g.after b s' eff).sess b').undoing := by
  have hrel : ReleaseUnseen g b := by
    intro e he
    exact absurd (Session.undoing_of_releasing he) (hu b)
  exact ⟨hW.after hm hen (Action.cleanExit_of_errorFree ha) hrel,
    forall_after (P := fun _ s => ¬ s.undoing) (hm.not_undoing ha (hu b)) fun b' _ => hu b'⟩

theorem errorFree_run {tr : List (B × Action)}
    (r : Machine.Run (protocol B) (fun _ l => l.2.errorFree = true) (System.initial bits₀) tr g) :
    Waits bits₀ g ∧ ∀ b, ¬ (g.sess b).undoing := by
  refine r.invariant (I := fun g => Waits bits₀ g ∧ ∀ b, ¬ (g.sess b).undoing) ?_
    ⟨waits_initial bits₀, by simp [System.initial, Session.undoing]⟩
  rintro g ⟨b, a⟩ g' ha hstep ⟨hW, hu⟩
  obtain ⟨s', eff, hm, hen, rfl⟩ := step_cases hstep
  exact hW.after_errorFree hu hm hen ha

/-- Runs without errors, from bitmaps with nothing in progress: an unmigrated
tuple a waiting backend waits for is claimed by another backend, which is still
scanning or still raising its bits.  So no set of backends, one backend by itself
included, can be waiting on each other. -/
theorem waiting_has_no_cycle {tr : List (B × Action)}
    (h₀ : ∀ r, (bits₀ r).lock = true → (bits₀ r).migrate = true)
    (r : Machine.Run (protocol B) (fun _ l => l.2.errorFree = true) (System.initial bits₀) tr g) :
    (∀ b, (g.sess b).pc.waiting = true → ∀ e ∈ (g.sess b).inProgLocalList1,
      (g.bits ((g.sess b).bitmapNum, e)).migrate = false →
      ∃ b', b' ≠ b ∧ ((g.sess b).bitmapNum, e) ∈ (g.sess b').held ∧
        ((g.sess b').pc.scanning = true ∨ ∃ todo, (g.sess b').pc = .setMigrate todo ∧ e ∈ todo)) ∧
    (∀ S : Set B, (∀ b ∈ S, ∃ b' ∈ S, WaitsOn g b b') → S = ∅) := by
  obtain ⟨hW, hu⟩ := errorFree_run r
  have claimant : ∀ b, (g.sess b).pc.waiting = true → ∀ e ∈ (g.sess b).inProgLocalList1,
      (g.bits ((g.sess b).bitmapNum, e)).migrate = false →
      ∃ b', b' ≠ b ∧ ((g.sess b).bitmapNum, e) ∈ (g.sess b').held ∧
        ((g.sess b').pc.scanning = true ∨
          ∃ todo, (g.sess b').pc = .setMigrate todo ∧ e ∈ todo) := by
    intro b hw e he hm
    obtain ⟨b', hne, -, hheld, howed⟩ := hW.claimant h₀ hw he hm
    refine ⟨b', hne, hheld, ?_⟩
    rcases Session.settling_of_owed (hW.pursued.atRest b') howed with h | h | ⟨todo, h, -⟩
    · exact .inl h
    · exact .inr h
    · exact absurd ⟨todo, h⟩ (hu b')
  refine ⟨claimant, fun S hS => Set.eq_empty_of_forall_notMem ?_⟩
  intro b hb
  -- a claimant in `S` would itself be waiting
  obtain ⟨b₁, hb₁, hw, e, he, hm, hheld⟩ := hS b hb
  obtain ⟨-, -, hw₁, -⟩ := hS b₁ hb₁
  obtain ⟨b₂, -, hheld₂, hpc⟩ := claimant b hw e he hm
  obtain rfl := hW.ownership.held_unique b₁ b₂ _ hheld hheld₂
  rcases hpc with hpc | ⟨_, hpc, -⟩
  · cases h : (g.sess b₁).pc <;> simp [h, Pc.scanning, Pc.waiting] at hpc hw₁
  · simp [hpc, Pc.waiting] at hw₁

/-- Backend `false` waits for tuple 6, which `true` has claimed and is still scanning. -/
theorem waiting_has_no_cycle_claimed :
    ∃ tr g, Machine.Run (protocol Bool) (fun _ l => l.2.errorFree = true)
        (System.initial allClear) tr g ∧
      (g.sess false).pc.waiting = true ∧
      (∃ b', b' ≠ false ∧ (0, 6) ∈ (g.sess b').held ∧
        ((g.sess b').pc.scanning = true ∨ ∃ todo, (g.sess b').pc = .setMigrate todo ∧ 6 ∈ todo)) ∧
      (∀ S : Set Bool, (∀ b ∈ S, ∃ b' ∈ S, WaitsOn g b b') → S = ∅) := by
  let tr := startStatement true 0 ++ claim true 6 ++ startStatement false 0 ++ claim false 5 ++
    queue false 6 ++ [(false, .portalEnd)] ++ nexts false 3
  obtain ⟨g, run, h⟩ := (protocol Bool).exists_runIn (fun _ l => l.2.errorFree = true)
    (s := System.initial allClear) tr
    (p := fun g => decide ((g.sess false).pc.waiting = true ∧ (g.sess false).bitmapNum = 0 ∧
      6 ∈ (g.sess false).inProgLocalList1 ∧ (g.bits (0, 6)).migrate = false))
    (by decide +kernel)
  obtain ⟨hw, hk, he, hm⟩ := of_decide_eq_true h
  obtain ⟨hclaim, hcycle⟩ := waiting_has_no_cycle (by simp [allClear]) run
  have h6 := hclaim false hw 6 he
  rw [hk] at h6
  exact ⟨tr, g, run, hw, h6 hm, hcycle⟩

/-! ## With aborts that clear lock bits -/

/-- Every tuple a waiting backend waits for is migrated, or on the
`InProgLocalList0` of a backend that will raise its bit or clear its lock. -/
def NoneStranded (g : System B) : Prop :=
  ∀ b, (g.sess b).pc.waiting = true → ∀ e ∈ (g.sess b).inProgLocalList1,
    (g.bits ((g.sess b).bitmapNum, e)).migrate = true ∨
      ∃ b', (g.sess b').bitmapNum = (g.sess b).bitmapNum ∧
        e ∈ (g.sess b').inProgLocalList0 ∧ (g.sess b').Settling e

/-- No tuple a waiting backend waits for is still on its way to its claimant's list. -/
def Announced (g : System B) : Prop :=
  ∀ b, (g.sess b).pc.waiting = true → ∀ e ∈ (g.sess b).inProgLocalList1,
    ∀ b', (g.sess b').bitmapNum = (g.sess b).bitmapNum → (g.sess b').unlisted ≠ some e

/-- The wait loop is entered when every tuple on the list is on its claimant's. -/
def EnterAnnounced (g : System B) (b : B) : Prop :=
  ∀ e ∈ (g.sess b).entering, ∀ b', (g.sess b').bitmapNum = (g.sess b).bitmapNum →
    (g.sess b').unlisted ≠ some e

/-- The steps under which no waiter is stranded: errors go through
`txn_error_handling`, a lock bit is not cleared under a backend that has seen it
set, and no backend starts to wait inside the few steps between the setting of a
lock bit and the append. -/
def NotStranding (g : System B) (l : B × Action) : Prop :=
  l.2.cleanExit = true ∧ ReleaseUnseen g l.1 ∧ EnterAnnounced g l.1

section Decidable

variable {C : Type} [Fintype C] [DecidableEq C] (g : System C)

instance (b : C) : Decidable (ReleaseUnseen g b) :=
  inferInstanceAs (Decidable (∀ _ ∈ (g.sess b).releasing, ∀ _, _ → _ → _))

instance (b : C) : Decidable (EnterAnnounced g b) :=
  inferInstanceAs (Decidable (∀ _ ∈ (g.sess b).entering, ∀ _, _ → _))

instance (l : C × Action) : Decidable (NotStranding g l) :=
  inferInstanceAs (Decidable (_ ∧ _ ∧ _))

end Decidable

theorem Announced.after (hW : Waits bits₀ g) (hA : Announced g)
    (hm : Session.Move g.bits (g.sess b) a s' eff) (henter : EnterAnnounced g b) :
    Announced (g.after b s' eff) := by
  intro b₁ hw e he b₂ hk hun
  by_cases h₁ : b₁ = b
  · subst h₁
    rw [after_sess_self] at hw he hk
    obtain ⟨hk₁, hfrom, hsub⟩ := hm.waiting_from (hW.covered.sweeps b₁) hw
    by_cases h₂ : b₂ = b₁
    · subst h₂
      rw [after_sess_self] at hun
      cases hpc : s'.pc <;> simp [hpc, Pc.waiting, Session.unlisted] at hw hun
    · rw [after_sess_ne h₂] at hk hun
      rw [hk₁] at hk
      rcases hfrom with hfrom | hfrom
      · exact hA b₁ hfrom e (hsub e he) b₂ hk hun
      · refine henter e ?_ b₂ hk hun
        simp only [Session.entering, hfrom]
        exact hsub e he
  · rw [after_sess_ne h₁] at hw he hk
    by_cases h₂ : b₂ = b
    · subst h₂
      rw [after_sess_self] at hk hun
      obtain ⟨hk₂, hun | rfl⟩ := hm.unlisted_from hun
      · exact hA b₁ hw e he b₂ (hk₂ ▸ hk) hun
      · -- a tuple on a wait list is locked, so it cannot be claimed now
        have hclear : g.bits ((g.sess b₂).bitmapNum, e) = ⟨false, false⟩ :=
          hW.ownership.finds hm
        have hlock := hW.queued b₁ (Session.not_undoing_of_waiting hw) e
          (by rw [Session.queued_of_waiting hw]; exact he)
        rw [← hk, hk₂, hclear] at hlock
        cases hlock
    · rw [after_sess_ne h₂] at hk hun
      exact hA b₁ hw e he b₂ hk hun

/-- Along every run of such steps no waiter is stranded. -/
theorem none_stranded_of_unseen_releases {tr : List (B × Action)}
    (r : Machine.Run (protocol B) NotStranding (System.initial allClear) tr g) :
    NoneStranded g := by
  have inv : Waits allClear g ∧ (∀ b, (g.sess b).Listed) ∧ Announced g := by
    refine r.invariant (I := fun g => Waits allClear g ∧ (∀ b, (g.sess b).Listed) ∧ Announced g) ?_
      ⟨waits_initial allClear, by simp [System.initial, Session.Listed, Session.owed],
        by simp [Announced, System.initial]⟩
    rintro g ⟨b, a⟩ g' ⟨ha, hrel, henter⟩ hstep ⟨hW, hL, hA⟩
    obtain ⟨s', eff, hm, hen, rfl⟩ := step_cases hstep
    exact ⟨hW.after hm hen ha hrel,
      forall_after (P := fun _ s => s.Listed) (hm.listed (hL b)) fun b' _ => hL b',
      hA.after hW hm henter⟩
  obtain ⟨hW, hL, hA⟩ := inv
  intro b hw e he
  cases hm : (g.bits ((g.sess b).bitmapNum, e)).migrate with
  | true => exact .inl rfl
  | false =>
      obtain ⟨b', -, hk, -, howed⟩ := hW.claimant (by simp [allClear]) hw he hm
      have hlist := (hL b' e howed).resolve_right (hA b hw e he b' hk)
      exact .inr ⟨b', hk, hlist, Session.settling_of_owed (hW.pursued.atRest b') howed⟩

/-- Backend `true` claims tuple 6 and aborts before anybody has seen it; `false`
then claims it, and the next statement of `true` waits for `false`. -/
theorem none_stranded_after_abort :
    ∃ tr g, Machine.Run (protocol Bool) NotStranding (System.initial allClear) tr g ∧
      (true, .error .onConflictWriter) ∈ tr ∧ (g.sess true).pc.waiting = true ∧
      (g.sess true).inProgLocalList1 = [6] ∧ NoneStranded g := by
  let tr := startStatement true 0 ++ claim true 6 ++ [(true, .error .onConflictWriter)] ++
    nexts true 2 ++ startStatement false 0 ++ claim false 6 ++ startStatement true 0 ++
    queue true 6 ++ [(true, .portalEnd)] ++ nexts true 1
  obtain ⟨g, run, h⟩ := (protocol Bool).exists_runIn NotStranding
    (s := System.initial allClear) tr
    (p := fun g => decide ((g.sess true).pc.waiting = true ∧
      (g.sess true).inProgLocalList1 = [6]))
    (by decide +kernel)
  obtain ⟨hw, hl⟩ := of_decide_eq_true h
  exact ⟨tr, g, run, by simp [tr], hw, hl, none_stranded_of_unseen_releases run⟩

/-- A waiter can be stranded: `true` claims tuple 5, `false` sees it locked and
queues it, `true` aborts through `txn_error_handling`, and `false` starts to wait
for a tuple nobody is migrating any more. -/
theorem abort_strands_waiter :
    ∃ tr g, Machine.Run (protocol Bool) (fun _ l => l.2.cleanExit = true)
      (System.initial allClear) tr g ∧ ¬ NoneStranded g := by
  let tr := startStatement true 0 ++ claim true 5 ++ startStatement false 0 ++ queue false 5 ++
    [(true, .error .onConflictWriter)] ++ nexts true 2 ++ [(false, .portalEnd)] ++ nexts false 1
  obtain ⟨g, run, h⟩ := (protocol Bool).exists_runIn (fun _ l => l.2.cleanExit = true)
    (s := System.initial allClear) tr
    (p := fun g => decide ((g.sess false).pc.waiting = true ∧
      5 ∈ (g.sess false).inProgLocalList1 ∧
      (g.bits ((g.sess false).bitmapNum, 5)).migrate = false ∧
      ∀ b, 5 ∉ (g.sess b).inProgLocalList0))
    (by decide +kernel)
  obtain ⟨hw, he, hm, hnone⟩ := of_decide_eq_true h
  refine ⟨tr, g, run, ?_⟩
  intro hS
  rcases hS false hw 5 he with hset | ⟨b', -, hb', -⟩
  · rw [hm] at hset; cases hset
  · exact hnone b' hb'

end

end BullFrog
