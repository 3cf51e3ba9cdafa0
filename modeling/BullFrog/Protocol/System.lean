/-
# `BullFrog.Protocol.System` — any number of backends over one shared memory

Shared memory is the two bitmaps, the partition locks of `MainLWLockArray` that
guard them, and the new tables as far as they are committed.  A step of the
system is a step of one backend; the label says which backend and which of its
actions, so a list of labels is an interleaving.

`emitted` is history: every tuple `MigrateTuple` has answered true for, in the
order of the answers.  `committed` keeps the committed transactions apart, each
with the rows it inserted, because who inserted a row is what the exactly-once
property speaks about.
-/
import BullFrog.Lib.Machine
import BullFrog.Protocol.Session

namespace BullFrog

/-- Number of locks per bitmap. -/
def numMigrateBitmapLocks : Nat := 256

/-- `MigrateBitmapPartition`. -/
def migrateBitmapPartition (hashcode : Eid) : Nat :=
  hashcode.toNat % numMigrateBitmapLocks

/-- `MigrateBitmapPartitionLock`, as the position past `MIGRATE_BITMAP_OFFSET`. -/
def migrateBitmapPartitionLock (hashcode : Eid) (i : BitmapNum) : Nat :=
  migrateBitmapPartition hashcode + i * numMigrateBitmapLocks

/-- A condition on the members of a list is decided along the list.  Eids are a
finite type, and an enumeration of all of them must not be preferred to that. -/
instance (priority := high) decidableForallMem {α : Type} (p : α → Prop) [DecidablePred p]
    (l : List α) : Decidable (∀ x ∈ l, p x) :=
  List.decidableBAll p l

/-- The whole system, `B` naming the backends. -/
structure System (B : Type) where
  sess : B → Session
  bits : Key → Status
  /-- the holder of each partition lock -/
  lwlock : Nat → Option B
  emitted : List Key
  committed : List (List Key)

/-- No backend has done anything yet. -/
def System.initial {B : Type} (bits : Key → Status) : System B :=
  { sess := fun _ => {}, bits := bits, lwlock := fun _ => none, emitted := [], committed := [] }

/-- The bitmaps as `InitGlobalBitmap` leaves them. -/
def allClear : Key → Status := fun _ => ⟨false, false⟩

namespace Effect

variable {B : Type}

/-- The effect on the status bits. -/
def onBits (bits : Key → Status) : Effect → Key → Status
  | .setLock k e => Function.update bits (k, e) { bits (k, e) with lock := true }
  | .setMigrate k e => Function.update bits (k, e) { bits (k, e) with migrate := true }
  | .resetLock k e => Function.update bits (k, e) { bits (k, e) with lock := false }
  | _ => bits

/-- The effect on the partition locks. -/
def onLocks (b : B) (lwlock : Nat → Option B) : Effect → Nat → Option B
  | .acquire k e => Function.update lwlock (migrateBitmapPartitionLock e k) (some b)
  | .release k e => Function.update lwlock (migrateBitmapPartitionLock e k) none
  | _ => lwlock

/-- A migrate bit is only ever raised, and by one effect. -/
theorem onBits_migrate {bits : Key → Status} {eff : Effect} {r : Key} :
    (eff.onBits bits r).migrate = true ↔
      (bits r).migrate = true ∨ eff = .setMigrate r.1 r.2 := by
  cases eff with
  | setLock k e | resetLock k e =>
      by_cases hr : r = (k, e)
      · subst hr; simp [onBits]
      · simp [onBits, hr]
  | setMigrate k e =>
      by_cases hr : r = (k, e)
      · subst hr; simp [onBits]
      · have : ¬ (k = r.1 ∧ e = r.2) := fun h => hr (by rw [h.1, h.2])
        simp [onBits, hr, this]
  | _ => simp [onBits]

/-- A lock bit is set by one effect and cleared by one. -/
theorem onBits_lock {bits : Key → Status} {eff : Effect} {r : Key} :
    (eff.onBits bits r).lock = true ↔
      eff = .setLock r.1 r.2 ∨ ((bits r).lock = true ∧ eff ≠ .resetLock r.1 r.2) := by
  cases eff with
  | setLock k e =>
      by_cases hr : r = (k, e)
      · subst hr; simp [onBits]
      · have : ¬ (k = r.1 ∧ e = r.2) := fun h => hr (by rw [h.1, h.2])
        simp [onBits, hr, this]
  | resetLock k e =>
      by_cases hr : r = (k, e)
      · subst hr; simp [onBits]
      · have : ¬ (k = r.1 ∧ e = r.2) := fun h => hr (by rw [h.1, h.2])
        simp only [onBits, Function.update_of_ne hr]
        simp
        tauto
  | setMigrate k e =>
      by_cases hr : r = (k, e)
      · subst hr; simp [onBits]
      · simp [onBits, hr]
  | _ => simp [onBits]

def onEmitted (emitted : List Key) : Effect → List Key
  | .emit k e => emitted ++ [(k, e)]
  | _ => emitted

def onCommitted (committed : List (List Key)) : Effect → List (List Key)
  | .commit rows => committed ++ [rows]
  | _ => committed

/-- `LWLockAcquire` sleeps until nobody holds the lock; nothing else waits. -/
def enabled (lwlock : Nat → Option B) : Effect → Bool
  | .acquire k e => (lwlock (migrateBitmapPartitionLock e k)).isNone
  | _ => true

end Effect

section

variable {B : Type} [DecidableEq B]

/-- The system after backend `b` has become `s'` with the effect `eff`. -/
def System.after (g : System B) (b : B) (s' : Session) (eff : Effect) : System B :=
  { sess := Function.update g.sess b s'
    bits := eff.onBits g.bits
    lwlock := eff.onLocks b g.lwlock
    emitted := eff.onEmitted g.emitted
    committed := eff.onCommitted g.committed }

/-- The protocol: one backend makes one step. -/
def protocol (B : Type) [DecidableEq B] : Machine (System B) (B × Action) where
  step g l :=
    match (g.sess l.1).step g.bits l.2 with
    | none => none
    | some (s', eff) => if eff.enabled g.lwlock then some (g.after l.1 s' eff) else none

variable {g g' : System B} {b b' : B} {a : Action} {s' : Session} {eff : Effect}

/-- What a step of the system is. -/
theorem step_cases (h : (protocol B).step g (b, a) = some g') :
    ∃ s' eff, Session.Move g.bits (g.sess b) a s' eff ∧ eff.enabled g.lwlock = true ∧
      g' = g.after b s' eff := by
  simp only [protocol] at h
  split at h
  · cases h
  · rename_i s' eff hs
    split at h
    · cases h; exact ⟨s', eff, Session.move_of_step hs, ‹_›, rfl⟩
    · cases h

@[simp] theorem after_sess_self : (g.after b s' eff).sess b = s' := by
  simp [System.after]

theorem after_sess_ne (h : b' ≠ b) : (g.after b s' eff).sess b' = g.sess b' := by
  simp [System.after, h]

@[simp] theorem after_bits : (g.after b s' eff).bits = eff.onBits g.bits := rfl

@[simp] theorem after_lwlock : (g.after b s' eff).lwlock = eff.onLocks b g.lwlock := rfl

@[simp] theorem after_emitted : (g.after b s' eff).emitted = eff.onEmitted g.emitted := rfl

@[simp] theorem after_committed :
    (g.after b s' eff).committed = eff.onCommitted g.committed := rfl

/-- A property of every backend survives a step if the one that moved has it
afterwards and the others keep it. -/
theorem forall_after {P : B → Session → Prop} (hself : P b s')
    (hother : ∀ b', b' ≠ b → P b' (g.sess b')) : ∀ b', P b' ((g.after b s' eff).sess b') := by
  intro b'
  by_cases hb : b' = b
  · subst hb; rw [after_sess_self]; exact hself
  · rw [after_sess_ne hb]; exact hother b' hb

end

/-! ## Pieces of a schedule -/

section

variable {B : Type}

/-- `n` steps of the code backend `b` is in. -/
def nexts (b : B) (n : Nat) : List (B × Action) := List.replicate n (b, .next)

/-- A migration statement on bitmap `k` is bound and entered. -/
def startStatement (b : B) (k : BitmapNum) : List (B × Action) := [(b, .bind k), (b, .execute none)]

/-- `MigrateTuple` on a free tuple, up to and including the insert of its row. -/
def claim (b : B) (e : Eid) : List (B × Action) := (b, .pass e) :: nexts b 9

/-- `MigrateTuple` on a tuple whose lock bit the first check finds set. -/
def queue (b : B) (e : Eid) : List (B × Action) := (b, .pass e) :: nexts b 3

end

end BullFrog
