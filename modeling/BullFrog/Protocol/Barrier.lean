/-
# `BullFrog.Protocol.Barrier` — what is known when `post_query_tasks` returns

Each way out of `MigrateTuple` leaves another trace of the tuple: an entry of
`InProgLocalList0`, an entry of `InProgLocalList1`, or nothing at all when the
migrate bit was seen.  `Covers P` says that one of the first two is there, or that
the tuple has the property `P`, for every tuple passed since the lists were last
emptied; the step lemma `Move.covers` follows it through the loop that raises the
backend's own bits and through the loop that deletes the cells whose bit it has seen.
What is left when both loops are through is `P`.  Here it is the migrate bit itself,
and nothing ever clears that.

An abort by another backend does not disturb this.  It clears lock bits, and a
backend that has queued the tuple polls the migrate bit only.
-/
import BullFrog.Protocol.Ownership

namespace BullFrog

/-- `post_query_tasks` is at work, in migration mode. -/
def Pc.inPostQueryTasks : Pc → Bool
  | .setMigrate _ | .sweep _ _ | .freeLists => true
  | _ => false

namespace Session

/-- The tuple `MigrateTuple` has taken up and neither queued nor seen migrated. -/
def current (s : Session) : Option Eid :=
  match s.pc with
  | .readMigrate e | .readLock e | .acquire e => some e
  | .recheckMigrate e | .recheckLock e | .setLock e => some e
  | .releaseBusy e | .appendBusy e => some e
  | _ => none

/-- `txn_error_handling` is at work: the claims are being given up. -/
def undoing (s : Session) : Prop := ∃ todo, s.pc = .resetLock todo

/-- The tuple whose migrate bit the next step reads: the two checks of `MigrateTuple`, and
the wait loop of `post_query_tasks`. -/
def reads (s : Session) : Option Eid :=
  match s.pc with
  | .readMigrate e | .recheckMigrate e | .sweep _ (e :: _) => some e
  | _ => none

/-- The step finds the migrate bit of `e` set. -/
def FindsSet (bits : Key → Status) (s : Session) (a : Action) (e : Eid) : Prop :=
  a = .next ∧ s.reads = some e ∧ (bits (s.bitmapNum, e)).migrate = true

/-- The tuple has the property `P`, or the backend has still to see to it before its
statement ends. -/
def Covers (P : Key → Prop) (s : Session) (e : Eid) : Prop :=
  P (s.bitmapNum, e) ∨ e ∈ s.owed ∨ e ∈ s.inProgLocalList1 ∨ s.current = some e

/-- The cells of `InProgLocalList1` during a sweep are those kept and those ahead. -/
structure Sweeps (s : Session) : Prop where
  split : ∀ kept rest, s.pc = .sweep kept rest → s.inProgLocalList1 = kept ++ rest
  done : s.pc = .freeLists → s.inProgLocalList1 = []

variable {bits : Key → Status} {s s' : Session} {a : Action} {eff : Effect} {e : Eid}

theorem Move.sweeps (h : Move bits s a s' eff) (hs : Sweeps s) : Sweeps s' := by
  cases h with
  | bind k hpc => exact ⟨by simp [hpc], by simp [hpc]⟩
  | startSweep _ _ => exact ⟨by rintro _ _ ⟨⟩; rfl, by simp⟩
  | leaveLoop _ hnil => exact ⟨by simp, fun _ => hnil⟩
  | deleteCell kept e rest _ _ => exact ⟨by rintro _ _ ⟨⟩; rfl, by simp⟩
  | keepCell kept e rest hpc _ =>
      refine ⟨?_, by simp⟩
      rintro _ _ ⟨⟩
      simpa using hs.split kept (e :: rest) hpc
  | _ => constructor <;> simp [clear, abort]

theorem current_of_canFail (h : canFail s.pc = true) : s.current = none := by
  unfold canFail at h
  unfold current
  split at h <;> simp_all

/-- `post_query_tasks` returns only after both loops. -/
theorem Move.returns (h : Move bits s a s' eff) (hin : s.pc.inPostQueryTasks = true)
    (hout : s'.pc.inPostQueryTasks = false) : s.pc = .freeLists := by
  cases h with
  | freeLists hpc => exact hpc
  | failUndo _ hc _ | fail _ hc _ =>
      exfalso
      unfold canFail at hc
      split at hc <;> simp_all [Pc.inPostQueryTasks]
  | finishPending _ _ hpc _ | finishCommit _ _ hpc _ | finishDiscard _ _ hpc _ =>
      rcases hpc with ⟨-, hpc⟩ | ⟨-, hpc⟩ <;> simp [Pc.inPostQueryTasks, hpc] at hin
  | _ => simp_all [Pc.inPostQueryTasks]

/-! ### Where the traces of a tuple go in one step -/

/-- The tuples passed are forgotten, or the bitmap stays and only the tuple
taken up by this step is new. -/
theorem Move.passed (h : Move bits s a s' eff) :
    s'.passed = [] ∨
      (s'.bitmapNum = s.bitmapNum ∧ ∀ e ∈ s'.passed, e ∈ s.passed ∨ s'.current = some e) := by
  cases h with
  | bind _ _ | freeLists _ | undone _ => exact .inl rfl
  | pass e _ _ _ =>
      refine .inr ⟨rfl, fun x hx => (List.mem_append.mp hx).imp_right ?_⟩
      intro hx
      rw [List.mem_singleton.mp hx]
      rfl
  | _ => exact .inr ⟨rfl, fun e he => .inl he⟩

/-- `txn_error_handling` ends in the clean-up and in error recovery. -/
theorem Move.undone_of (h : Move bits s a s' eff) (hu : s.undoing) (hu' : ¬ s'.undoing) :
    s' = s.clear.abort := by
  obtain ⟨todo, hpc⟩ := hu
  cases h with
  | resetLock _ _ _ => exact absurd ⟨_, rfl⟩ hu'
  | undone _ => rfl
  | _ => simp_all [canFail]

/-- A claim is dropped only with the tuples passed, and settled by raising its
bit or by `txn_error_handling`. -/
theorem Move.owed_kept (h : Move bits s a s' eff) (he : e ∈ s.owed) (hp : s'.passed ≠ [])
    (hu : ¬ s'.undoing) : e ∈ s'.owed ∨ eff = .setMigrate s.bitmapNum e := by
  cases h with
  | bind _ _ | freeLists _ | undone _ => exact absurd rfl hp
  | resetLock _ _ _ | failUndo _ _ _ => exact absurd ⟨_, rfl⟩ hu
  | fail _ hc _ => rw [owed_of_canFail hc] at he; exact .inl he
  | leaveLoop hpc _ | startSweep hpc _ =>
      rcases hpc with hpc | ⟨_, hpc⟩ <;> simp [owed, hpc] at he
  | finishPending _ _ hpc _ | finishCommit _ _ hpc _ | finishDiscard _ _ hpc _ =>
      rcases hpc with ⟨-, hpc⟩ | ⟨-, hpc⟩ <;> simp_all [owed]
  | setMigrate e' todo hpc =>
      simp only [owed, hpc, List.mem_cons] at he
      rcases he with rfl | he
      · exact .inr rfl
      · exact .inl he
  | _ => simp_all [owed]

/-- A cell leaves `InProgLocalList1` with the tuples passed, or once its migrate
bit has been seen. -/
theorem Move.list1_kept (h : Move bits s a s' eff) (hs : Sweeps s) (he : e ∈ s.inProgLocalList1)
    (hp : s'.passed ≠ []) : e ∈ s'.inProgLocalList1 ∨ FindsSet bits s a e := by
  cases h with
  | bind _ _ | freeLists _ | undone _ => exact absurd rfl hp
  | appendBusy _ _ => exact .inl (List.mem_append_left _ he)
  | deleteCell kept e' rest hpc hm =>
      rw [hs.split kept _ hpc] at he
      rcases List.mem_append.mp he with he | he
      · exact .inl (List.mem_append_left _ he)
      · rcases List.mem_cons.mp he with rfl | he
        · exact .inr ⟨rfl, by simp [reads, hpc], hm⟩
        · exact .inl (List.mem_append_right _ he)
  | _ => exact .inl he

/-- What `MigrateTuple` has taken up it keeps, claims, queues or has seen migrated. -/
theorem Move.current_kept (h : Move bits s a s' eff) (he : s.current = some e) :
    s'.current = some e ∨ e ∈ s'.owed ∨ e ∈ s'.inProgLocalList1 ∨ FindsSet bits s a e := by
  cases h with
  | failUndo _ hc _ | fail _ hc _ => simp [current_of_canFail hc] at he
  | leaveLoop hpc _ | startSweep hpc _ =>
      rcases hpc with hpc | ⟨_, hpc⟩ <;> simp [current, hpc] at he
  | finishPending _ _ hpc _ | finishCommit _ _ hpc _ | finishDiscard _ _ hpc _ =>
      rcases hpc with ⟨-, hpc⟩ | ⟨-, hpc⟩ <;> simp [current, hpc] at he
  | _ => simp_all [current, owed, FindsSet, reads]

/-- A step keeps a passed tuple covered, unless the claims are being given up, if the property
survives it and holds of the tuples whose bit it finds set or raises. -/
theorem Move.covers {P Q : Key → Prop} (h : Move bits s a s' eff) (hs : Sweeps s)
    (hkeep : ∀ e, P (s.bitmapNum, e) → Q (s.bitmapNum, e))
    (hsee : ∀ e, FindsSet bits s a e → Q (s.bitmapNum, e))
    (hraise : ∀ e ∈ s.owed, eff = .setMigrate s.bitmapNum e → Q (s.bitmapNum, e))
    (hold : ∀ e ∈ s.passed, ¬ s.undoing → Covers P s e) :
    ∀ e ∈ s'.passed, ¬ s'.undoing → Covers Q s' e := by
  intro e he hu
  have hp : s'.passed ≠ [] := List.ne_nil_of_mem he
  obtain ⟨hk, hnew⟩ := h.passed.resolve_left hp
  have done : Q (s.bitmapNum, e) → Covers Q s' e := fun hq => .inl (by rw [hk]; exact hq)
  have hu' : ¬ s.undoing := fun hs' => hp (by rw [h.undone_of hs' hu]; rfl)
  rcases hnew e he with hpassed | hcur
  · rcases hold e hpassed hu' with hm | ho | hl | hc
    · exact done (hkeep e hm)
    · rcases h.owed_kept ho hp hu with ho' | heff
      · exact .inr (.inl ho')
      · exact done (hraise e ho heff)
    · rcases h.list1_kept hs hl hp with hl | hm
      · exact .inr (.inr (.inl hl))
      · exact done (hsee e hm)
    · rcases h.current_kept hc with hc | ho | hl | hm
      · exact .inr (.inr (.inr hc))
      · exact .inr (.inl ho)
      · exact .inr (.inr (.inl hl))
      · exact done (hsee e hm)
  · exact .inr (.inr (.inr hcur))

/-- With both loops of `post_query_tasks` done, the property is all that is left. -/
theorem Covers.at_freeLists {P : Key → Prop} (h : Covers P s e) (hs : Sweeps s)
    (hpc : s.pc = .freeLists) : P (s.bitmapNum, e) := by
  rcases h with h | h | h | h
  · exact h
  · simp [owed, hpc] at h
  · rw [hs.done hpc] at h
    cases h
  · simp [current, hpc] at h

theorem not_undoing_of_freeLists (hpc : s.pc = .freeLists) : ¬ s.undoing := by
  rintro ⟨_, h⟩
  simp [h] at hpc

end Session

/-! ## The barrier -/

section

variable {B : Type} {g : System B} {b : B} {a : Action} {s' : Session} {eff : Effect}

/-- Every backend's passed tuples are covered. -/
structure Covered (g : System B) : Prop where
  sweeps : ∀ b, (g.sess b).Sweeps
  covers : ∀ b, ∀ e ∈ (g.sess b).passed, ¬ (g.sess b).undoing →
    (g.sess b).Covers (fun r => (g.bits r).migrate = true) e

theorem covered_initial (bits₀ : Key → Status) : Covered (System.initial bits₀ : System B) :=
  ⟨fun _ => ⟨by simp [System.initial], by simp [System.initial]⟩, by simp [System.initial]⟩

theorem Covered.migrated (hI : Covered g) (hpc : (g.sess b).pc = .freeLists) {e : Eid}
    (he : e ∈ (g.sess b).passed) : (g.bits ((g.sess b).bitmapNum, e)).migrate = true :=
  (hI.covers b e he (Session.not_undoing_of_freeLists hpc)).at_freeLists (hI.sweeps b) hpc

variable [DecidableEq B]

theorem Covered.after (hI : Covered g) (hm : Session.Move g.bits (g.sess b) a s' eff) :
    Covered (g.after b s' eff) where
  sweeps := forall_after (P := fun _ s => s.Sweeps) (hm.sweeps (hI.sweeps b))
    fun b' _ => hI.sweeps b'
  covers := by
    -- no step clears the migrate bit of any tuple
    have kept : ∀ r, (g.bits r).migrate = true → (eff.onBits g.bits r).migrate = true :=
      fun r h => Effect.onBits_migrate.mpr (.inl h)
    refine forall_after (P := fun _ s => ∀ e ∈ s.passed, ¬ s.undoing →
      s.Covers (fun r => (eff.onBits g.bits r).migrate = true) e) ?_ ?_
    · refine hm.covers (hI.sweeps b) (fun e => kept _) (fun e he => kept _ he.2.2) ?_ (hI.covers b)
      rintro e - rfl
      exact Effect.onBits_migrate.mpr (.inr rfl)
    · intro b' _ e he hu
      exact (hI.covers b' e he hu).imp_left (kept _)

theorem covered_run {ok : System B → B × Action → Prop} {tr : List (B × Action)}
    {g₀ : System B} (h₀ : Covered g₀) (r : Machine.Run (protocol B) ok g₀ tr g) : Covered g := by
  refine r.invariant (I := Covered) ?_ h₀
  rintro g ⟨b, a⟩ g' - hstep hI
  obtain ⟨s', eff, hm, -, rfl⟩ := step_cases hstep
  exact hI.after hm

/-- No step clears a migrate bit. -/
theorem migrate_mono {ok : System B → B × Action → Prop} {tr : List (B × Action)}
    {g g' : System B} (r : Machine.Run (protocol B) ok g tr g') {key : Key}
    (h : (g.bits key).migrate = true) : (g'.bits key).migrate = true := by
  refine r.invariant (I := fun g => (g.bits key).migrate = true) ?_ h
  rintro g ⟨b, a⟩ g' - hstep hI
  obtain ⟨s', eff, -, -, rfl⟩ := step_cases hstep
  exact Effect.onBits_migrate.mpr (.inl hI)

/-- Whatever the backends do: when `post_query_tasks` returns in a backend that
was in migration mode, each tuple it has passed to `MigrateTuple` since its lists
were last emptied has its migrate bit set, and keeps it for the rest of the run. -/
theorem completion_barrier {bits₀ : Key → Status} {tr tr' : List (B × Action)}
    {g g₁ g₂ : System B} {b : B} {a : Action}
    (r : Machine.Run (protocol B) Machine.Any (System.initial bits₀) tr g)
    (hin : (g.sess b).pc.inPostQueryTasks = true) (hret : (protocol B).step g (b, a) = some g₁)
    (hout : (g₁.sess b).pc.inPostQueryTasks = false)
    (r' : Machine.Run (protocol B) Machine.Any g₁ tr' g₂) :
    ∀ e ∈ (g.sess b).passed,
      (g₁.bits ((g.sess b).bitmapNum, e)).migrate = true ∧
      (g₂.bits ((g.sess b).bitmapNum, e)).migrate = true := by
  intro e he
  have hset : (g₁.bits ((g.sess b).bitmapNum, e)).migrate = true := by
    obtain ⟨s', eff, hm, -, rfl⟩ := step_cases hret
    rw [after_sess_self] at hout
    have hdone := (covered_run (covered_initial bits₀) r).migrated (hm.returns hin hout) he
    exact Effect.onBits_migrate.mpr (.inl hdone)
  exact ⟨hset, migrate_mono r' hset⟩

/-- Backend `false` claims tuple 5 and queues tuple 6, which `true` has claimed; it
returns once `true` has raised the bit, and `true` goes on. -/
theorem completion_barrier_after_wait :
    ∃ tr g g₁ g₂, Machine.Run (protocol Bool) Machine.Any (System.initial allClear) tr g ∧
      (protocol Bool).step g (false, .next) = some g₁ ∧ (g.sess false).passed = [5, 6] ∧
      (g₁.sess false).pc.inPostQueryTasks = false ∧
      Machine.Run (protocol Bool) Machine.Any g₁ (nexts true 2) g₂ ∧
      ∀ e ∈ (g.sess false).passed,
        (g₁.bits ((g.sess false).bitmapNum, e)).migrate = true ∧
        (g₂.bits ((g.sess false).bitmapNum, e)).migrate = true := by
  let tr := startStatement true 0 ++ claim true 6 ++ startStatement false 0 ++ claim false 5 ++
    queue false 6 ++ [(false, .portalEnd)] ++ nexts false 4 ++
    [(true, .portalEnd)] ++ nexts true 1 ++ nexts false 2
  obtain ⟨g, run, h⟩ := (protocol Bool).exists_run (s := System.initial allClear) tr
    (p := fun g => decide ((g.sess false).pc.inPostQueryTasks = true ∧
        (g.sess false).passed = [5, 6]) &&
      ((protocol Bool).step g (false, .next)).any fun g₁ =>
        !(g₁.sess false).pc.inPostQueryTasks && ((protocol Bool).exec g₁ (nexts true 2)).any
          fun _ => true)
    (by decide +kernel)
  obtain ⟨h, h'⟩ := Bool.and_eq_true_iff.mp h
  obtain ⟨hin, hpassed⟩ := of_decide_eq_true h
  obtain ⟨g₁, hstep, h₁⟩ := (Option.any_eq_true _ _).mp h'
  obtain ⟨hout, h₂⟩ := Bool.and_eq_true_iff.mp h₁
  have hout := Bool.not_eq_true' _ |>.mp hout
  obtain ⟨g₂, run₂, -⟩ := (protocol Bool).exists_run (nexts true 2) h₂
  exact ⟨tr, g, g₁, g₂, run, hstep, hpassed, hout, run₂,
    completion_barrier run hin hstep hout run₂⟩

end

end BullFrog
