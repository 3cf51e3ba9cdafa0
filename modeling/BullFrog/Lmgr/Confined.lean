/-
# `BullFrog.Lmgr.Confined` — locks that no call is about do not matter

`State.Initial` asks every lock to be as `LWLockInitialize` leaves it, and a server need not
have initialised every lock of its array.  The code of a call reads and writes the lock it was
called for; only `LWLockReleaseAll` goes on to others, and those are locks that have been taken.
So a run whose calls are all for locks of a set `P` never touches the others: it is step for
step a run from a state in which they are initialised too (`Agree.step`), with the same
backends and the same locks of `P`.
-/
import BullFrog.Lmgr.LWLock

namespace BullFrog.Lmgr

variable {B L V : Type}

/-- The lock a function is called for. -/
def Act.target : Act L V → Option L
  | .acquire l _ | .conditionalAcquire l _ | .acquireOrWait l _ | .waitForVar l _
  | .updateVar l _ | .release l | .releaseClearVar l _ => some l
  | .releaseAll | .next | .signal | .wait => none

/-- In code that looks at the lock of the call. -/
def Pc.onLock : Pc B V → Bool
  | .idle | .releaseLoop => false
  | _ => true

/-- The locks of `P` are as `LWLockInitialize` leaves them, and no backend is in any call. -/
structure State.InitialOn (P : L → Prop) (s : State B L V) : Prop where
  state : ∀ l, P l → (s.lock l).state = Flag.releaseOk.mask
  waiters : ∀ l, P l → (s.lock l).waiters = []
  idle : ∀ b, (s.proc b).pc = .idle
  held : ∀ b, (s.proc b).held = []
  waits : ∀ b, (s.proc b).extraWaits = 0 ∧ (s.proc b).dequeueWaits = 0
  lwWaiting : ∀ b, s.lwWaiting b = false

/-- The states have the same backends and the same locks of `P`, and no backend is at work on
another lock or holds one. -/
structure Agree (P : L → Prop) (s t : State B L V) : Prop where
  proc : t.proc = s.proc
  lwWaiting : t.lwWaiting = s.lwWaiting
  lwWaitMode : t.lwWaitMode = s.lwWaitMode
  sem : t.sem = s.sem
  lock : ∀ l, P l → t.lock l = s.lock l
  busy : ∀ b, (s.proc b).pc.onLock = true → P (s.proc b).lock
  held : ∀ b, ∀ x ∈ (s.proc b).held, P x.1

/-- A state of which only the locks of `P` are initialised agrees with one in which all are. -/
theorem State.InitialOn.exists_initial {P : L → Prop} {s : State B L V} (h : s.InitialOn P) :
    ∃ t, t.Initial ∧ Agree P s t := by
  classical
  let lock : L → Cell B V := fun l =>
    if P l then s.lock l else ⟨Flag.releaseOk.mask, [], (s.lock l).var⟩
  refine ⟨{ s with lock := lock },
    ⟨fun l => ?_, fun l => ?_, h.idle, h.held, h.waits, h.lwWaiting⟩,
    ⟨rfl, rfl, rfl, rfl, fun l hl => if_pos hl, fun b hb => ?_, fun b x hx => ?_⟩⟩
  · by_cases hl : P l
    · simp [lock, hl, h.state l hl]
    · simp [lock, hl]
  · by_cases hl : P l
    · simp [lock, hl, h.waiters l hl]
    · simp [lock, hl]
  · rw [h.idle b] at hb
    cases hb
  · rw [h.held b] at hx
    cases hx

/-- The two states play the same part. -/
theorem Agree.symm {P : L → Prop} {s t : State B L V} (h : Agree P s t) : Agree P t s where
  proc := h.proc.symm
  lwWaiting := h.lwWaiting.symm
  lwWaitMode := h.lwWaitMode.symm
  sem := h.sem.symm
  lock l hl := (h.lock l hl).symm
  busy b := by
    rw [h.proc]
    exact h.busy b
  held b := by
    rw [h.proc]
    exact h.held b

section Next

variable [DecidableEq L] {p p' : Proc B L V}

theorem removeHeld_mem {l : L} {m : LWLockMode} {held held' : List (L × LWLockMode)}
    (h : removeHeld l held = some (m, held')) : ∀ x ∈ held', x ∈ held := by
  induction held generalizing held' with
  | nil => cases h
  | cons e held ih =>
      simp only [removeHeld] at h
      split at h
      · rename_i hrest
        cases h
        intro x hx
        rcases List.mem_cons.mp hx with rfl | hx
        · exact List.mem_cons_self
        · exact List.mem_cons_of_mem _ (ih hrest x hx)
      · split at h
        · cases h
          exact fun x hx => List.mem_cons_of_mem _ hx
        · cases h

variable [DecidableEq B] [DecidableEq V] {b : B} {cell cell' : Cell B V} {wt : Bool}
  {mode : B → LWLockMode} {sem : Nat} {e : Effect B V}

/-- Off the lock the cell is not looked at. -/
theorem next_congr (h : p.pc.onLock = false) :
    next b p cell wt mode sem = next b p cell' wt mode sem := by
  cases hpc : p.pc <;> simp_all [Pc.onLock, next]

/-- The code stays on its lock, leaves it, or goes to one that is held. -/
theorem next_onLock (h : next b p cell wt mode sem = some (p', e)) (ho : p'.pc.onLock = true) :
    p.pc.onLock = true ∧ p'.lock = p.lock ∨ ∃ x ∈ p.held, x.1 = p'.lock := by
  cases hpc : p.pc
  case releaseLoop =>
    simp only [next, hpc] at h
    split at h
    · cases h
      cases ho
    · rename_i l m hlast
      cases h
      exact Or.inr ⟨(l, m), List.mem_of_getLast? hlast, rfl⟩
  all_goals left
  all_goals
    simp only [next, hpc] at h
    repeat' split at h
  all_goals cases h
  all_goals exact ⟨rfl, rfl⟩

/-- Only the lock of the call comes to the locks held. -/
theorem next_held (h : next b p cell wt mode sem = some (p', e)) (x : L × LWLockMode)
    (hx : x ∈ p'.held) : x ∈ p.held ∨ p.pc.onLock = true ∧ x.1 = p.lock := by
  cases hpc : p.pc
  case release =>
    simp only [next, hpc] at h
    split at h
    · cases h
      exact Or.inl hx
    · rename_i m held hrem
      cases h
      exact Or.inl (removeHeld_mem hrem x hx)
  all_goals
    simp only [next, hpc] at h
    repeat' split at h
  all_goals cases h
  all_goals first
    | exact Or.inl hx
    | (rcases List.mem_append.mp hx with hx | hx
       · exact Or.inl hx
       · exact Or.inr ⟨rfl, congrArg Prod.fst (List.mem_singleton.mp hx)⟩)

end Next

section Steps

variable [DecidableEq B] [DecidableEq L] [DecidableEq V] {P : L → Prop} {s s' t : State B L V}
  {b : B} {a : Act L V} {p' : Proc B L V} {e : Effect B V}

theorem Agree.next (h : Agree P s t) (b : B) : t.next b = s.next b := by
  rw [State.next, State.next, h.proc, h.lwWaiting, h.lwWaitMode, h.sem]
  cases ho : (s.proc b).pc.onLock with
  | false => exact next_congr ho
  | true => rw [h.lock _ (h.busy b ho)]

/-- A move in the one state is the same move in the other. -/
theorem Agree.move (h : Agree P s t) (hm : Move s b a p' e) : Move t b a p' e := by
  have hproc : t.proc b = s.proc b := congrFun h.proc b
  cases hm with
  | next hn => exact .next ((h.next b).trans hn)
  | signal => exact hproc ▸ .signal
  | wait hpc hsem => exact hproc ▸ .wait (by rw [hproc]; exact hpc) (by rw [h.sem]; exact hsem)
  | start hpc hs => exact .start (by rw [hproc]; exact hpc) (by rw [hproc]; exact hs)

/-- What a backend is on and holds after a move, if it was called for locks of `P` only. -/
theorem Agree.stays (h : Agree P s t) (hP : ∀ l ∈ a.target, P l) (hm : Move s b a p' e) :
    (p'.pc.onLock = true → P p'.lock) ∧ ∀ x ∈ p'.held, P x.1 := by
  cases hm with
  | next hn =>
      constructor
      · intro ho
        rcases next_onLock hn ho with ⟨ho', hlock⟩ | ⟨x, hx, hlock⟩
        · rw [hlock]
          exact h.busy b ho'
        · rw [← hlock]
          exact h.held b x hx
      · intro x hx
        rcases next_held hn x hx with hx | ⟨ho, hlock⟩
        · exact h.held b x hx
        · rw [hlock]
          exact h.busy b ho
  | signal | wait => exact ⟨h.busy b, h.held b⟩
  | start hpc hs =>
      cases a with
      | acquire l | conditionalAcquire l | acquireOrWait l =>
          cases hs
          simp only [Proc.take]
          split
          · exact ⟨h.busy b, h.held b⟩
          · exact ⟨fun _ => hP l rfl, h.held b⟩
      | waitForVar l | updateVar l | release l | releaseClearVar l =>
          cases hs
          exact ⟨fun _ => hP l rfl, h.held b⟩
      | releaseAll =>
          cases hs
          exact ⟨nofun, h.held b⟩
      | next | signal | wait => cases hs

theorem Agree.after (h : Agree P s t) (hP : ∀ l ∈ a.target, P l) (hm : Move s b a p' e) :
    Agree P (s.after b p' e) (t.after b p' e) := by
  have hproc : t.proc b = s.proc b := congrFun h.proc b
  obtain ⟨hbusy, hheld⟩ := h.stays hP hm
  refine ⟨?_, ?_, ?_, ?_, fun l hl => ?_, fun c hc => ?_, fun c x hx => ?_⟩
  · simp only [State.after, h.proc]
  · simp only [State.after, h.lwWaiting]
  · simp only [State.after, h.lwWaitMode]
  · simp only [State.after, h.sem]
  · simp only [State.after, hproc]
    by_cases hlock : l = (s.proc b).lock
    · subst hlock
      rw [Function.update_self, Function.update_self, h.lock _ hl]
    · rw [Function.update_of_ne hlock, Function.update_of_ne hlock, h.lock l hl]
  · by_cases hcb : c = b
    · subst hcb
      rw [after_proc_self] at hc ⊢
      exact hbusy hc
    · rw [after_proc_ne s hcb] at hc ⊢
      exact h.busy c hc
  · by_cases hcb : c = b
    · subst hcb
      rw [after_proc_self] at hx
      exact hheld x hx
    · rw [after_proc_ne s hcb] at hx
      exact h.held c x hx

/-- A step for locks of `P` is a step of the other state, and the two agree afterwards. -/
theorem Agree.step (h : Agree P s t) (hP : ∀ l ∈ a.target, P l)
    (hstep : (lwlocks B L V).step s (b, a) = some s') :
    ∃ t', (lwlocks B L V).step t (b, a) = some t' ∧ Agree P s' t' := by
  obtain ⟨p', e, hm, rfl⟩ := step_move hstep
  exact ⟨_, (h.move hm).step, h.after hP hm⟩

/-- What a backend does alone, it does alone in the other state. -/
theorem Agree.run {tr : List (B × Act L V)} (h : Agree P s t)
    (r : (lwlocks B L V).Run (fun _ x => x = (b, .next)) s tr s') :
    ∃ t', (lwlocks B L V).Run (fun _ x => x = (b, .next)) t tr t' ∧ Agree P s' t' := by
  induction r with
  | nil => exact ⟨t, .nil, h⟩
  | snoc _ hx hstep ih =>
      obtain ⟨t', r', h'⟩ := ih
      subst hx
      obtain ⟨t'', ht, h''⟩ := h'.step (a := .next) nofun hstep
      exact ⟨t'', .snoc r' rfl ht, h''⟩

end Steps

end BullFrog.Lmgr
