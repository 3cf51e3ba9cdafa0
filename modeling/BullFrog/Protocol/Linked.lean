/-
# `BullFrog.Protocol.Linked` — the migration protocol over the code of the locks

`BullFrog.Protocol.System` takes a partition lock in one step.  Here a backend calls
`LWLockAcquire` and `LWLockRelease` and runs through `lwlock.c`, one instruction at a time and
interleaved with everybody else, with signals of other origin on its semaphore:

    session       call        lock ... lock        session
    acquire e ──────────▶ │ LWLockAcquire … │ ──────────▶ recheckMigrate e

An error finds no partition lock held (`Session.canFail`), so the `LWLockReleaseAll` of error
recovery has nothing to do here.

The locks are as `InitializeLWLocks` leaves them (`Linked.Start`).  It does not initialise the
partition locks of the second bitmap, so what is proved here is about runs in which every
recognised migration is the first one (`Linked.FirstBitmap`): their calls are for partition
locks that are initialised, and the others play no part (`BullFrog.Lmgr.Confined`).

The invariant (`Joined`) says where a session and the lock code of its backend can be together:
between its lock and its unlock a session holds just the one partition lock, and elsewhere
none.
-/
import BullFrog.LWLocks
import BullFrog.Lmgr.Confined
import BullFrog.Lmgr.Solo

namespace BullFrog

/-! ## The linked system -/

/-- The whole system, with the locks as `lwlock.c` has them. -/
structure Linked (B : Type) where
  sess : B → Session
  bits : Key → Status
  locks : Lmgr.State B Nat Unit
  /-- inside `LWLockAcquire` or `LWLockRelease` -/
  calling : B → Bool
  emitted : List Key
  committed : List (List Key)

/-- What may happen to a backend. -/
inductive LinkedAct where
  /-- a step of the session; where it waits for a lock call, the return from it -/
  | session (a : Action)
  /-- the session calls `LWLockAcquire` or `LWLockRelease` -/
  | call
  /-- the next instruction of the call -/
  | lock
  /-- the backend's semaphore is posted for another reason -/
  | signal
  /-- the backend takes its semaphore for another reason -/
  | wait
  deriving DecidableEq

/-- The lock call an effect stands for. -/
def Effect.lockCall : Effect → Option (Lmgr.Act Nat Unit)
  | .acquire k e => some (.acquire (migrateBitmapPartitionLock e k) .exclusive)
  | .release k e => some (.release (migrateBitmapPartitionLock e k))
  | .skip | .setLock _ _ | .setMigrate _ _ | .resetLock _ _ | .emit _ _ | .commit _ => none

namespace Linked

variable {B : Type} [DecidableEq B]

/-- The last call of `b` is over, and it was no error. -/
def returned (g : Linked B) (b : B) : Bool :=
  match (g.locks.proc b).pc, (g.locks.proc b).result with
  | .idle, .ok _ => true
  | _, _ => false

def step (g : Linked B) : B × LinkedAct → Option (Linked B)
  | (b, .session a) =>
      match (g.sess b).step g.bits a with
      | none => none
      | some (s', eff) =>
          if g.calling b = eff.lockCall.isSome ∧ g.returned b then
            some { g with
              sess := Function.update g.sess b s'
              bits := eff.onBits g.bits
              calling := Function.update g.calling b false
              emitted := eff.onEmitted g.emitted
              committed := eff.onCommitted g.committed }
          else none
  | (b, .call) =>
      match (g.sess b).step g.bits .next with
      | none => none
      | some (_, eff) =>
          match eff.lockCall with
          | none => none
          | some c =>
              if g.calling b then none
              else (g.locks.step (b, c)).map fun locks =>
                { g with locks := locks, calling := Function.update g.calling b true }
  | (b, .lock) =>
      if g.calling b then (g.locks.step (b, .next)).map fun locks => { g with locks := locks }
      else none
  | (b, .signal) => (g.locks.step (b, .signal)).map fun locks => { g with locks := locks }
  | (b, .wait) =>
      if g.calling b then none
      else (g.locks.step (b, .wait)).map fun locks => { g with locks := locks }

/-- The server has come up: no backend has done anything, and `InitializeLWLocks` has run.  In
`n` individual locks and `requests` for named tranches only the place of the partition locks
in the array is given.  A lock in which nothing was stored may be anything. -/
structure Start (n : Nat) (requests : NamedLWLockTrancheRequests) (bits : Key → Status)
    (g : Linked B) : Prop where
  sess : ∀ b, g.sess b = {}
  bits : g.bits = bits
  calling : ∀ b, g.calling b = false
  emitted : g.emitted = []
  committed : g.committed = []
  proc : ∀ b, (g.locks.proc b).Resting []
  waits : ∀ b, (g.locks.proc b).extraWaits = 0 ∧ (g.locks.proc b).dequeueWaits = 0
  lwWaiting : ∀ b, g.locks.lwWaiting b = false
  locks : ∀ l < numMigrateBitmapLocks * 2,
    ∀ lock ∈ (initializeLWLocks n requests (migrateBitmapOffset n + l)).getLast?,
      (g.locks.lock l).state = lock.state ∧
        (lock.waitersHead = Int32.maxValue → (g.locks.lock l).waiters = [])

/-- Such a state, with zeros in the words of the second bitmap's locks. -/
def initial (bits : Key → Status) : Linked B where
  sess _ := {}
  bits := bits
  locks :=
    { lock l := ⟨if l < numMigrateBitmapLocks then Lmgr.Flag.releaseOk.mask else 0, [], ()⟩
      lwWaiting _ := false
      lwWaitMode _ := .exclusive
      sem _ := 0
      proc _ := ⟨.idle, 0, [], 0, 0, false, .ok true, none⟩ }
  calling _ := false
  emitted := []
  committed := []

/-- Every recognised Bind is of the first migration. -/
def FirstBitmap (_ : Linked B) (x : B × LinkedAct) : Prop := x.2 ≠ .session (.bind 1)

instance : ∀ (g : Linked B) (x : B × LinkedAct), Decidable (FirstBitmap g x) :=
  fun _ x => inferInstanceAs (Decidable (x.2 ≠ _))

end Linked

/-- The protocol over the code of the locks. -/
def linked (B : Type) [DecidableEq B] : Machine (Linked B) (B × LinkedAct) := ⟨Linked.step⟩

/-- Two backends after the same tuple: the first has its partition lock, the second sleeps. -/
def linkedContended (e : Eid) : List (Bool × LinkedAct) :=
  [(false, .session (.bind 0)), (false, .session (.execute none)), (false, .session (.pass e)),
    (false, .session .next), (false, .session .next), (false, .call)] ++
  List.replicate 5 (false, .lock) ++ [(false, .session .next)] ++
  [(true, .session (.bind 0)), (true, .session (.execute none)), (true, .session (.pass e)),
    (true, .session .next), (true, .session .next), (true, .call)] ++
  List.replicate 12 (true, .lock)

/-! ## The start -/

section Start

variable {B : Type} (n : Nat) (requests : NamedLWLockTrancheRequests) (bits : Key → Status)

/-- What `InitializeLWLocks` has stored last in a partition lock. -/
theorem initializeLWLocks_partition {l : Nat} (h : l < numMigrateBitmapLocks * 2) :
    (initializeLWLocks n requests (migrateBitmapOffset n + l)).getLast? =
      if l < numMigrateBitmapLocks then some (.initialised (lwtrancheMigrateBitmap n))
      else none := by
  have hfixed : numFixedLWLocks n = migrateBitmapOffset n + numMigrateBitmapLocks * 2 := rfl
  rw [initializeLWLocks_apply]
  by_cases hl : l < numMigrateBitmapLocks
  · rw [if_pos (by omega), if_pos hl, regionTranche_bitmap n requests (by omega) (by omega)]
    rfl
  · rw [if_neg (by omega), if_neg hl]
    rfl

theorem Linked.initial_start : (Linked.initial bits : Linked B).Start n requests bits where
  sess _ := rfl
  bits := rfl
  calling _ := rfl
  emitted := rfl
  committed := rfl
  proc _ := ⟨rfl, rfl, rfl, true, rfl⟩
  waits _ := ⟨rfl, rfl⟩
  lwWaiting _ := rfl
  locks l hl lock hlock := by
    rw [initializeLWLocks_partition n requests hl] at hlock
    split at hlock
    · rename_i hfirst
      cases hlock
      exact ⟨if_pos hfirst, fun _ => rfl⟩
    · cases hlock

variable {n requests bits}

/-- The partition locks of the first bitmap start as `LWLockInitialize` leaves them. -/
theorem Linked.Start.initialOn {g : Linked B} (h : g.Start n requests bits) :
    g.locks.InitialOn (· < numMigrateBitmapLocks) := by
  have hfirst : ∀ l < numMigrateBitmapLocks,
      (g.locks.lock l).state = Lmgr.Flag.releaseOk.mask ∧ (g.locks.lock l).waiters = [] := by
    intro l hl
    have hstored := initializeLWLocks_partition n requests (l := l) (by omega)
    rw [if_pos hl] at hstored
    obtain ⟨hstate, hqueue⟩ := h.locks l (by omega) _ hstored
    exact ⟨hstate, hqueue rfl⟩
  exact ⟨fun l hl => (hfirst l hl).1, fun l hl => (hfirst l hl).2, fun b => (h.proc b).pc,
    fun b => (h.proc b).held, h.waits, h.lwWaiting⟩

end Start

/-! ## Where a session is, seen from the locks -/

/-- The part of `MigrateTuple` a session is in. -/
inductive Section where
  | out
  | enter (e : Eid)
  | inside (e : Eid)
  | leave (e : Eid)
  deriving DecidableEq

def Pc.section : Pc → Section
  | .acquire e => .enter e
  | .recheckMigrate e | .recheckLock e | .setLock e => .inside e
  | .releaseClaimed e | .releaseBusy e | .releaseDone e => .leave e
  | .idle | .scan | .readMigrate _ | .readLock _ | .appendClaimed _ | .insertRow _
  | .appendBusy _ | .setMigrate _ | .sweep _ _ | .freeLists | .ending | .resetLock _ => .out

/-- The lock of tuple `e`. -/
def Session.partition (s : Session) (e : Eid) : Nat := migrateBitmapPartitionLock e s.bitmapNum

section Sessions

variable {bits : Key → Status} {s s' : Session} {a : Action} {eff : Effect}

/-- A step that calls no lock function stays outside, goes to its entry, or stays between
the lock and the unlock. -/
theorem Session.Move.section_of_plain (h : Move bits s a s' eff) (hcall : eff.lockCall = none) :
    s.pc.section = .out ∧ (s'.pc.section = .out ∨ ∃ e, s'.pc.section = .enter e) ∨
      s'.bitmapNum = s.bitmapNum ∧ ∃ e, s.pc.section = .inside e ∧
        (s'.pc.section = .inside e ∨ s'.pc.section = .leave e) := by
  cases h with
  | leaveLoop hpc | startSweep hpc => rcases hpc with hpc | ⟨kept, hpc⟩ <;> simp [Pc.section, hpc]
  | finishPending _ _ hpc | finishCommit _ _ hpc | finishDiscard _ _ hpc =>
      rcases hpc with ⟨_, hpc⟩ | ⟨_, hpc⟩ <;> simp [Pc.section, hpc]
  | failUndo _ hfail | fail _ hfail =>
      left
      constructor
      · generalize s.pc = pc at hfail
        cases pc <;> first | rfl | cases hfail
      · exact Or.inl rfl
  | acquire | releaseClaimed | releaseBusy | releaseDone => cases hcall
  | _ => simp_all [Pc.section, Session.abort]

/-- One that does is the entry or the exit. -/
theorem Session.Move.section_of_call {c : Lmgr.Act Nat Unit} (h : Move bits s a s' eff)
    (hcall : eff.lockCall = some c) :
    a = .next ∧ eff.onBits bits = bits ∧ (∀ k, eff.onEmitted k = k) ∧ (∀ k, eff.onCommitted k = k) ∧
      ((∃ e, s.pc.section = .enter e ∧ s'.pc.section = .inside e ∧
          s'.bitmapNum = s.bitmapNum ∧ c = .acquire (s.partition e) .exclusive) ∨
        ∃ e, s.pc.section = .leave e ∧ s'.pc.section = .out ∧
          c = .release (s.partition e)) := by
  cases h <;> simp_all [Pc.section, Effect.lockCall, Effect.onBits, Effect.onEmitted,
    Effect.onCommitted, Session.partition]

theorem Session.step_of_enter {s : Session} {e : Eid} (h : s.pc.section = .enter e)
    (bits : Key → Status) :
    ∃ s', s.step bits .next = some (s', .acquire s.bitmapNum e) := by
  cases hpc : s.pc <;> rw [hpc] at h <;> cases h
  simp only [Session.step, Session.next, hpc]
  exact ⟨_, rfl⟩

theorem Session.step_of_leave {s : Session} {e : Eid} (h : s.pc.section = .leave e)
    (bits : Key → Status) :
    ∃ s', s.step bits .next = some (s', .release s.bitmapNum e) := by
  cases hpc : s.pc <;> rw [hpc] at h <;> cases h <;>
    simp only [Session.step, Session.next, hpc] <;> exact ⟨_, rfl⟩

/-- The partition locks of a session of the first migration. -/
theorem Session.partition_lt (h : s.bitmapNum = 0) (e : Eid) :
    s.partition e < numMigrateBitmapLocks := by
  have hbounds := (migrateBitmapPartitionLock_bounds e 0).2
  rw [Session.partition, h]
  exact hbounds

end Sessions

/-! ## Sessions and locks together -/

section Places

variable {B : Type}

/-- Where a session and the lock code of its backend are together; the flag is `calling`. -/
inductive Place (s : Session) (p : Lmgr.Proc B Nat Unit) : Bool → Prop
  | out : s.pc.section = .out → p.Resting [] → Place s p false
  | enter (e : Eid) : s.pc.section = .enter e → p.Resting [] → Place s p false
  | acquiring (e : Eid) : s.pc.section = .enter e → p.Acquiring (s.partition e) → Place s p true
  | acquired (e : Eid) : s.pc.section = .enter e → p.Resting [(s.partition e, .exclusive)] →
      Place s p true
  | inside (e : Eid) : s.pc.section = .inside e ∨ s.pc.section = .leave e →
      p.Resting [(s.partition e, .exclusive)] → Place s p false
  | releasing (e : Eid) : s.pc.section = .leave e → p.Releasing (s.partition e) → Place s p true
  | released (e : Eid) : s.pc.section = .leave e → p.Resting [] → Place s p true

theorem Place.after_plain {s s' : Session} {p : Lmgr.Proc B Nat Unit} {bits : Key → Status}
    {a : Action} {eff : Effect} (h : Place s p false) (hm : Session.Move bits s a s' eff)
    (hcall : eff.lockCall = none) : Place s' p false := by
  rcases hm.section_of_plain hcall with ⟨hout, hto⟩ | ⟨hnum, e, hin, hto⟩
  · cases h with
    | out _ hrest =>
        rcases hto with hto | ⟨e, hto⟩
        · exact .out hto hrest
        · exact .enter e hto hrest
    | enter e hs => rw [hs] at hout; cases hout
    | inside e hs => rcases hs with hs | hs <;> rw [hs] at hout <;> cases hout
  · cases h with
    | out hs | enter e hs => rw [hs] at hin; cases hin
    | inside e' hs hrest =>
        rcases hs with hs | hs <;> rw [hs] at hin <;> cases hin
        have hpart : s.partition e = s'.partition e := by
          rw [Session.partition, Session.partition, hnum]
        exact .inside e hto (hpart ▸ hrest)

theorem Place.after_back {s s' : Session} {p : Lmgr.Proc B Nat Unit} {bits : Key → Status}
    {a : Action} {eff : Effect} {c : Lmgr.Act Nat Unit} (h : Place s p true)
    (hm : Session.Move bits s a s' eff) (hcall : eff.lockCall = some c) (hidle : p.pc = .idle) :
    Place s' p false := by
  obtain ⟨_, _, _, _, ⟨e, hfrom, hto, hnum, _⟩ | ⟨e, hfrom, hto, _⟩⟩ := hm.section_of_call hcall
  · cases h with
    | acquiring e' hs hacq =>
        have hpc := hacq.pc
        rw [hidle] at hpc
        cases hpc
    | acquired e' hs hrest =>
        rw [hs] at hfrom
        cases hfrom
        have hpart : s.partition e = s'.partition e := by
          rw [Session.partition, Session.partition, hnum]
        exact .inside e (Or.inl hto) (hpart ▸ hrest)
    | releasing e' hs | released e' hs => rw [hs] at hfrom; cases hfrom
  · cases h with
    | acquiring e' hs | acquired e' hs => rw [hs] at hfrom; cases hfrom
    | releasing e' hs hrel =>
        rcases hrel.place with ⟨hpc, _⟩ | ⟨hpc, _⟩ <;> rw [hidle] at hpc <;> cases hpc
    | released e' hs hrest => exact .out hto hrest

theorem Place.after_call {s s' : Session} {p p' : Lmgr.Proc B Nat Unit} {bits : Key → Status}
    {eff : Effect} {c : Lmgr.Act Nat Unit} (h : Place s p false)
    (hm : Session.Move bits s .next s' eff) (hcall : eff.lockCall = some c)
    (hstart : p.start c = some p') : Place s p' true ∧ p'.owned = p.owned := by
  obtain ⟨_, _, _, _, ⟨e, hfrom, _, _, rfl⟩ | ⟨e, hfrom, _, rfl⟩⟩ := hm.section_of_call hcall
  · cases h with
    | out hs => rw [hs] at hfrom; cases hfrom
    | enter e' hs hrest =>
        rw [hs] at hfrom
        cases hfrom
        have hroom : ¬ p.held.length ≥ Lmgr.maxSimulLWLocks := by
          rw [hrest.held]
          decide
        simp only [Lmgr.Proc.start, Lmgr.Proc.take, if_neg hroom] at hstart
        cases hstart
        refine ⟨.acquiring e hs ⟨rfl, hrest.one, rfl, hrest.held, true, rfl⟩, ?_⟩
        simp [Lmgr.Proc.owned, hrest.pc, Lmgr.Pc.pending]
    | inside e' hs => rcases hs with hs | hs <;> rw [hs] at hfrom <;> cases hfrom
  · cases h with
    | out hs | enter e' hs => rw [hs] at hfrom; cases hfrom
    | inside e' hs hrest =>
        rcases hs with hs | hs <;> rw [hs] at hfrom <;> cases hfrom
        simp only [Lmgr.Proc.start] at hstart
        cases hstart
        refine ⟨.releasing e hs ⟨rfl, hrest.one, Or.inl ⟨rfl, hrest.held⟩, hrest.ok⟩, ?_⟩
        simp [Lmgr.Proc.owned, hrest.pc, Lmgr.Pc.pending]

end Places

/-! ## One step -/

section Steps

variable {B : Type} [DecidableEq B]

/-- The state after a session step of `b`. -/
def Linked.afterSession (g : Linked B) (b : B) (s' : Session) (eff : Effect) : Linked B :=
  { g with
    sess := Function.update g.sess b s'
    bits := eff.onBits g.bits
    calling := Function.update g.calling b false
    emitted := eff.onEmitted g.emitted
    committed := eff.onCommitted g.committed }

/-- What a step of the linked system is. -/
inductive Linked.Moved (g : Linked B) (b : B) : LinkedAct → Linked B → Prop
  | plain (a : Action) (s' : Session) (eff : Effect) :
      (g.sess b).step g.bits a = some (s', eff) → eff.lockCall = none → g.calling b = false →
      Moved g b (.session a) (g.afterSession b s' eff)
  | back (a : Action) (s' : Session) (eff : Effect) (c : Lmgr.Act Nat Unit) :
      (g.sess b).step g.bits a = some (s', eff) → eff.lockCall = some c → g.calling b = true →
      (g.locks.proc b).pc = .idle → Moved g b (.session a) (g.afterSession b s' eff)
  | call (s' : Session) (eff : Effect) (c : Lmgr.Act Nat Unit) (p' : Lmgr.Proc B Nat Unit) :
      (g.sess b).step g.bits .next = some (s', eff) → eff.lockCall = some c →
      g.calling b = false → (g.locks.proc b).start c = some p' →
      Moved g b .call { g with
        locks := g.locks.after b p' .skip, calling := Function.update g.calling b true }
  | lock (p' : Lmgr.Proc B Nat Unit) (e : Lmgr.Effect B Unit) :
      g.calling b = true → g.locks.next b = some (p', e) →
      Moved g b .lock { g with locks := g.locks.after b p' e }
  | signal : Moved g b .signal { g with locks := g.locks.after b (g.locks.proc b) (.post b) }
  | wait : Moved g b .wait { g with locks := g.locks.after b (g.locks.proc b) .take }

/-- The locks do nothing, or a step whose lock, if it is called for one, is a partition lock
of the session. -/
def Linked.LocksMoved (g : Linked B) (b : B) (g' : Linked B) : Prop :=
  g'.locks = g.locks ∨
    ∃ a, (∀ l ∈ a.target, ∃ e, l = (g.sess b).partition e) ∧
      (Lmgr.lwlocks B Nat Unit).step g.locks (b, a) = some g'.locks

variable {g g' : Linked B} {b : B} {x : LinkedAct}

theorem Linked.moved_of_step (h : (linked B).step g (b, x) = some g') :
    g.Moved b x g' ∧ g.LocksMoved b g' := by
  change g.step (b, x) = some g' at h
  cases x with
  | session a =>
      simp only [Linked.step] at h
      split at h
      · cases h
      · rename_i s' eff hs
        split at h
        · rename_i hret
          obtain ⟨hcalling, hret⟩ := hret
          cases h
          refine ⟨?_, Or.inl rfl⟩
          cases hc : eff.lockCall with
          | none =>
              rw [hc] at hcalling
              exact .plain a s' eff hs hc hcalling
          | some c =>
              rw [hc] at hcalling
              refine .back a s' eff c hs hc hcalling ?_
              rw [Linked.returned] at hret
              split at hret
              · assumption
              · cases hret
        · cases h
  | call =>
      simp only [Linked.step] at h
      split at h
      · cases h
      · rename_i s' eff hs
        split at h
        · cases h
        · rename_i c hc
          split at h
          · cases h
          · rename_i hcalling
            obtain ⟨locks, hl, rfl⟩ := Option.map_eq_some_iff.mp h
            refine ⟨?_, Or.inr ⟨c, ?_, hl⟩⟩
            · obtain ⟨p', e, hm, rfl⟩ := Lmgr.step_move hl
              cases hm with
              | start hidle hstart => exact .call s' eff c p' hs hc (by simpa using hcalling) hstart
              | next | signal | wait => cases eff <;> cases hc
            · obtain ⟨_, _, _, _, ⟨e, _, _, _, rfl⟩ | ⟨e, _, _, rfl⟩⟩ :=
                (Session.move_of_step hs).section_of_call hc
              all_goals
                intro l hl
                cases hl
                exact ⟨e, rfl⟩
  | lock =>
      simp only [Linked.step] at h
      split at h
      · rename_i hcalling
        obtain ⟨locks, hl, rfl⟩ := Option.map_eq_some_iff.mp h
        refine ⟨?_, Or.inr ⟨.next, nofun, hl⟩⟩
        obtain ⟨p', e, hm, rfl⟩ := Lmgr.step_move (s := g.locks) (a := .next) hl
        cases hm with
        | next hn => exact .lock p' e hcalling hn
        | start _ hstart => cases hstart
      · cases h
  | signal =>
      simp only [Linked.step] at h
      obtain ⟨locks, hl, rfl⟩ := Option.map_eq_some_iff.mp h
      refine ⟨?_, Or.inr ⟨.signal, nofun, hl⟩⟩
      obtain ⟨p', e, hm, rfl⟩ := Lmgr.step_move (s := g.locks) (a := .signal) hl
      cases hm with
      | signal => exact .signal
      | start _ hstart => cases hstart
  | wait =>
      simp only [Linked.step] at h
      split at h
      · cases h
      · obtain ⟨locks, hl, rfl⟩ := Option.map_eq_some_iff.mp h
        refine ⟨?_, Or.inr ⟨.wait, nofun, hl⟩⟩
        obtain ⟨p', e, hm, rfl⟩ := Lmgr.step_move (s := g.locks) (a := .wait) hl
        cases hm with
        | wait => exact .wait
        | start _ hstart => cases hstart

end Steps

/-! ## The invariant -/

section Invariant

variable {B : Type} [DecidableEq B] {g g' : Linked B} {b : B}

/-- What every state of the linked system has.  The locks are seen through a state in which
the second bitmap's are initialised too. -/
structure Joined (g : Linked B) : Prop where
  locks : ∃ t₀ t, Lmgr.State.Initial t₀ ∧ (Lmgr.lwlocks B Nat Unit).Reachable t₀ t ∧
    Lmgr.Agree (· < numMigrateBitmapLocks) g.locks t
  first : ∀ b, (g.sess b).bitmapNum = 0
  place : ∀ b, Place (g.sess b) (g.locks.proc b) (g.calling b)

theorem Linked.Start.joined {n : Nat} {requests : NamedLWLockTrancheRequests} {bits : Key → Status}
    (h : g.Start n requests bits) : Joined g where
  locks := by
    obtain ⟨t, hinit, hagree⟩ := h.initialOn.exists_initial
    exact ⟨t, t, hinit, ⟨[], .nil⟩, hagree⟩
  first b := by rw [h.sess b]
  place b := by
    rw [h.sess b, h.calling b]
    exact .out rfl (h.proc b)

theorem Place.after_lock {s : Session} {locks : Lmgr.State B Nat Unit}
    {p' : Lmgr.Proc B Nat Unit} {e : Lmgr.Effect B Unit} (h : Place s (locks.proc b) true)
    (hn : locks.next b = some (p', e)) : Place s p' true := by
  have hbusy : (locks.proc b).pc ≠ .idle := by
    intro hidle
    simp [Lmgr.State.next, Lmgr.next, hidle] at hn
  cases h with
  | acquiring e hs hacq =>
      rcases Lmgr.next_acquiring hn hacq with hacq' | hrest
      · exact .acquiring e hs hacq'
      · exact .acquired e hs hrest
  | releasing e hs hrel =>
      rcases Lmgr.next_in_release hn hrel with hrel' | hrest
      · exact .releasing e hs hrel'
      · exact .released e hs hrest
  | acquired e hs hrest | released e hs hrest => exact absurd hrest.pc hbusy

/-- The calls are for locks of the first bitmap. -/
theorem Joined.locks_after (h : Joined g) (hm : g.LocksMoved b g') :
    ∃ t₀ t, Lmgr.State.Initial t₀ ∧ (Lmgr.lwlocks B Nat Unit).Reachable t₀ t ∧
      Lmgr.Agree (· < numMigrateBitmapLocks) g'.locks t := by
  obtain ⟨t₀, t, hinit, ⟨tr, r⟩, hagree⟩ := h.locks
  rcases hm with heq | ⟨a, htarget, hstep⟩
  · exact ⟨t₀, t, hinit, ⟨tr, r⟩, heq ▸ hagree⟩
  · have hP : ∀ l ∈ a.target, l < numMigrateBitmapLocks := by
      intro l hl
      obtain ⟨e, rfl⟩ := htarget l hl
      exact Session.partition_lt (h.first b) e
    obtain ⟨t', ht, hagree'⟩ := hagree.step hP hstep
    exact ⟨t₀, t', hinit, ⟨tr ++ [(b, a)], .snoc r trivial ht⟩, hagree'⟩

theorem Joined.of_self (h : Joined g) (hlocks : g.LocksMoved b g')
    (hother : ∀ c ≠ b, g'.sess c = g.sess c ∧ g'.locks.proc c = g.locks.proc c ∧
      g'.calling c = g.calling c)
    (hfirst : (g'.sess b).bitmapNum = 0)
    (hself : Place (g'.sess b) (g'.locks.proc b) (g'.calling b)) : Joined g' := by
  refine ⟨h.locks_after hlocks, fun c => ?_, fun c => ?_⟩
  · by_cases hc : c = b
    · exact hc ▸ hfirst
    · rw [(hother c hc).1]
      exact h.first c
  · by_cases hc : c = b
    · exact hc ▸ hself
    · obtain ⟨hs, hp, hk⟩ := hother c hc
      rw [hs, hp, hk]
      exact h.place c

theorem Joined.of_moved {x : LinkedAct} (h : Joined g) (hx : Linked.FirstBitmap g (b, x))
    (hm : g.Moved b x g') (hlocks : g.LocksMoved b g') : Joined g' := by
  have hplace := h.place b
  have hfirst := h.first b
  -- a session step keeps the bitmap, or is a Bind of the first migration
  have hbound : ∀ a s' eff, x = .session a → Session.Move g.bits (g.sess b) a s' eff →
      s'.bitmapNum = 0 := by
    rintro a s' eff rfl hmove
    rcases hmove.bitmapNum_eq with hkeep | rfl
    · exact hkeep.trans hfirst
    · by_contra hne
      exact hx (congrArg (LinkedAct.session ∘ Action.bind) (Fin.eq_one_of_ne_zero _ hne))
  cases hm with
  | plain a s' eff hs hc hcalling =>
      rw [hcalling] at hplace
      have hmove := Session.move_of_step hs
      refine h.of_self (b := b) hlocks (fun c hc => ?_) ?_ ?_
      · simp [Linked.afterSession, hc]
      · simpa [Linked.afterSession] using hbound a s' eff rfl hmove
      · simpa [Linked.afterSession] using hplace.after_plain hmove hc
  | back a s' eff c hs hc hcalling hidle =>
      rw [hcalling] at hplace
      have hmove := Session.move_of_step hs
      refine h.of_self (b := b) hlocks (fun c hc => ?_) ?_ ?_
      · simp [Linked.afterSession, hc]
      · simpa [Linked.afterSession] using hbound a s' eff rfl hmove
      · simpa [Linked.afterSession] using hplace.after_back hmove hc hidle
  | call s' eff c p' hs hc hcalling hstart =>
      rw [hcalling] at hplace
      refine h.of_self (b := b) hlocks (fun c hc => ?_) hfirst ?_
      · simp [Lmgr.after_proc_ne g.locks hc, hc]
      · simpa using (hplace.after_call (Session.move_of_step hs) hc hstart).1
  | lock p' e hcalling hn =>
      refine h.of_self (b := b) hlocks (fun c hc => ?_) hfirst ?_
      · simp [Lmgr.after_proc_ne g.locks hc]
      · rw [hcalling] at hplace
        simpa [hcalling] using hplace.after_lock hn
  | signal | wait =>
      refine h.of_self (b := b) hlocks (fun c hc => ?_) hfirst ?_
      · simp [Lmgr.after_proc_ne g.locks hc]
      · simpa using hplace

theorem Joined.of_run {g₀ : Linked B} {tr : List (B × LinkedAct)} (h : Joined g₀)
    (r : (linked B).Run Linked.FirstBitmap g₀ tr g) : Joined g := by
  refine r.invariant (I := Joined) ?_ h
  rintro g ⟨c, x⟩ g' hx hstep hJ
  obtain ⟨hm, hlocks⟩ := Linked.moved_of_step hstep
  exact hJ.of_moved hx hm hlocks

end Invariant

end BullFrog
