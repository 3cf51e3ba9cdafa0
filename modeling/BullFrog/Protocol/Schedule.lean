/-
# `BullFrog.Protocol.Schedule` — the outcome of a migration does not depend on the schedule

A set of migration statements on one bitmap, each given by the eids its scan
passes to `MigrateTuple`, each run by its own backend and none failing.  Which
statement wins a tuple depends on the interleaving; what is decided here is
that nothing else does:

    every passed tuple that was not migrated is emitted once   (`Emits`, from single ownership)
    nothing else is emitted                                    (`Follows.held`)
    every passed tuple is migrated at the end                  (`Follows.done`, from the barrier)
    no other bit has changed                                   (`Ownership.lock_iff`,
                                                                `migrate_from`)

The middle two lines bound the set of claims from both sides, and the bits are a
function of that set.
-/
import BullFrog.Protocol.Waiting

namespace BullFrog

/-- Part of a running statement, and not its failure. -/
def Action.inStatement : Action → Bool
  | .pass _ | .noInsert | .portalEnd | .next => true
  | .bind _ | .execute _ | .error _ | .sync => false

/-- The eid handed to `MigrateTuple`, if the action is that. -/
def Action.passed : Action → List Eid
  | .pass e => [e]
  | _ => []

theorem Action.errorFree_of_inStatement {a : Action} (h : a.inStatement = true) :
    a.errorFree = true := by
  cases a <;> simp_all [inStatement, errorFree]

/-- The statement is over, `post_query_tasks` included. -/
def Pc.over : Pc → Bool
  | .idle | .ending => true
  | _ => false

namespace Session

variable {bits : Key → Status} {s s' : Session} {a : Action} {eff : Effect} {e : Eid}

theorem Move.of_emit {k : BitmapNum} (h : Move bits s a s' (.emit k e)) :
    k = s.bitmapNum ∧ s.unlisted = some e ∧ s'.unlisted = none := by
  cases h with
  | appendClaimed e hpc => exact ⟨rfl, by simp [unlisted, hpc], rfl⟩

theorem Move.unlisted_of_setLock {k : BitmapNum} (h : Move bits s a s' (.setLock k e)) :
    s'.unlisted = some e := by
  cases h with
  | setLock e _ => rfl

theorem unlisted_iff :
    s.unlisted = some e ↔ s.pc = .releaseClaimed e ∨ s.pc = .appendClaimed e := by
  unfold unlisted
  split <;> simp_all

theorem Move.unlisted_kept (h : Move bits s a s' eff) (he : s.unlisted = some e) :
    s'.bitmapNum = s.bitmapNum ∧ (s'.unlisted = some e ∨ eff = .emit s.bitmapNum e) := by
  rcases unlisted_iff.mp he with hpc | hpc
  · cases h <;> simp_all [unlisted, canFail]
  · cases h <;> simp_all [canFail]

theorem unlisted_owed (h : s.unlisted = some e) : e ∈ s.owed := by
  rcases unlisted_iff.mp h with hpc | hpc <;> simp [owed, hpc]

/-- The tuple `MigrateTuple` is working on has been passed to it. -/
theorem Move.current_passed (h : Move bits s a s' eff)
    (hs : ∀ e, s.current = some e → e ∈ s.passed) : ∀ e, s'.current = some e → e ∈ s'.passed := by
  intro e he
  cases h with
  | pass e' _ _ _ =>
      simp only [current, Option.some.injEq] at he
      simp [he]
  | _ => simp_all [current, clear, abort]

/-- A step of a statement that does not fail: the statement goes on, or it is
over after `post_query_tasks` has returned. -/
theorem Move.statement (h : Move bits s a s' eff) (ha : a.inStatement = true)
    (hf : s.pc.over = false → s.migrateflag = true) (hu : ¬ s.undoing) :
    s'.bitmapNum = s.bitmapNum ∧ (s'.pc.over = false → s'.migrateflag = true) ∧
      ((s'.pc.over = false ∧ s.pc.over = false ∧ s'.passed = s.passed ++ a.passed) ∨
        (s'.pc.over = true ∧ a.passed = [] ∧ (s.pc = .freeLists ∨ s.pc.over = true))) := by
  cases h with
  | resetLock _ _ hpc | undone hpc => exact absurd ⟨_, hpc⟩ hu
  | leaveLoop hpc _ | startSweep hpc _ =>
      rcases hpc with hpc | ⟨_, hpc⟩ <;> simp_all [Pc.over, Action.passed]
  | finishPending _ _ hpc _ | finishCommit _ _ hpc _ | finishDiscard _ _ hpc _ =>
      rcases hpc with ⟨rfl, hpc⟩ | ⟨rfl, hpc⟩
      · simp [Pc.over, Action.passed, hpc]
      · cases ha
  | bind _ _ | execute _ _ _ | failUndo _ _ _ | fail _ _ _ => cases ha
  | _ => simp_all [Pc.over, Action.passed, clear]

end Session

/-! ## Each claim is emitted once -/

section

variable {B : Type}

/-- What has been emitted is what has been claimed, up to the claims still on their
way to `InProgLocalList0`. -/
structure Emits (g : System B) : Prop where
  nodup : g.emitted.Nodup
  held : ∀ r ∈ g.emitted, ∃ b, r ∈ (g.sess b).held
  listed : ∀ b, ∀ r ∈ (g.sess b).held, r ∈ g.emitted ∨
    (r.1 = (g.sess b).bitmapNum ∧ (g.sess b).unlisted = some r.2)
  pending : ∀ b e, (g.sess b).unlisted = some e → ((g.sess b).bitmapNum, e) ∉ g.emitted

variable {bits₀ : Key → Status} {g : System B} {b : B} {a : Action} {s' : Session}
  {eff : Effect}

theorem mem_onEmitted {r : Key} {l : List Key} :
    r ∈ eff.onEmitted l ↔ r ∈ l ∨ eff = .emit r.1 r.2 := by
  cases eff with
  | emit k e =>
      have : r = (k, e) ↔ k = r.1 ∧ e = r.2 := by rw [Prod.ext_iff, eq_comm, @eq_comm _ r.2]
      simp [Effect.onEmitted, this]
  | _ => simp [Effect.onEmitted]

/-- A tuple on its way to the list is held by the backend that is to append it. -/
theorem Ownership.unlisted_held (hO : Ownership bits₀ g) {e : Eid}
    (h : (g.sess b).unlisted = some e) : ((g.sess b).bitmapNum, e) ∈ (g.sess b).held :=
  hO.owed_held b e (Session.unlisted_owed h)

/-- So is a tuple that is being emitted. -/
theorem Ownership.emitted_held (hO : Ownership bits₀ g) {k : BitmapNum} {e : Eid}
    (hm : Session.Move g.bits (g.sess b) a s' (.emit k e)) : (k, e) ∈ (g.sess b).held := by
  obtain ⟨hk, hun, -⟩ := hm.of_emit
  rw [hk]
  exact hO.unlisted_held hun

/-- No tuple is emitted twice: the one that is being emitted was still on its way. -/
theorem Emits.nodup_after (hE : Emits g) (hm : Session.Move g.bits (g.sess b) a s' eff) :
    (eff.onEmitted g.emitted).Nodup := by
  cases eff with
  | emit k e =>
      obtain ⟨rfl, hun, -⟩ := hm.of_emit
      refine hE.nodup.append (by simp) ?_
      intro r hr hmem
      obtain rfl := List.mem_singleton.mp hmem
      exact hE.pending b e hun hr
  | _ => exact hE.nodup

/-- Every backend has bound a migration statement on bitmap `k` and entered it. -/
def System.statements (k : BitmapNum) (bits : Key → Status) : System B :=
  { System.initial bits with
    sess := fun _ => { pc := .scan, migrateflag := true, bitmapNum := k, xact := .started } }

theorem waits_statements (k : BitmapNum) (bits : Key → Status) :
    Waits bits (System.statements k bits : System B) where
  ownership := by
    constructor <;> simp [System.statements, System.initial, Session.owed, Session.inside]
  covered := ⟨fun _ => ⟨by simp [System.statements], by simp [System.statements]⟩,
    by simp [System.statements]⟩
  pursued := ⟨fun _ => ⟨by simp [System.statements], by simp [System.statements],
    by simp [System.statements]⟩, by simp [System.statements, Session.AtRest],
    by simp [System.statements]⟩
  queued := by simp [Queued, System.statements, Session.queued]

variable [DecidableEq B]

theorem Emits.listed_after (hO : Ownership bits₀ g) (hE : Emits g)
    (hm : Session.Move g.bits (g.sess b) a s' eff) {b' : B} {r : Key}
    (hr : r ∈ ((g.after b s' eff).sess b').held) :
    r ∈ eff.onEmitted g.emitted ∨ (r.1 = ((g.after b s' eff).sess b').bitmapNum ∧
      ((g.after b s' eff).sess b').unlisted = some r.2) := by
  rw [mem_onEmitted]
  rcases (hO.held_after hm b' r).mp hr with ⟨rfl, rfl⟩ | ⟨hr, -⟩
  · obtain ⟨hk, hk', -⟩ := hm.owing
    rw [after_sess_self]
    exact .inr ⟨hk'.symm, hm.unlisted_of_setLock⟩
  · rcases hE.listed b' r hr with hr | ⟨hk, hun⟩
    · exact .inl (.inl hr)
    · by_cases hb : b' = b
      · subst hb
        rw [after_sess_self]
        obtain ⟨hk', hun | rfl⟩ := hm.unlisted_kept hun
        · exact .inr ⟨hk.trans hk'.symm, hun⟩
        · exact .inl (.inr (by rw [hk]))
      · rw [after_sess_ne hb]
        exact .inr ⟨hk, hun⟩

theorem Emits.pending_after (hO : Ownership bits₀ g) (hE : Emits g)
    (hm : Session.Move g.bits (g.sess b) a s' eff) :
    ∀ b' e, ((g.after b s' eff).sess b').unlisted = some e →
      (((g.after b s' eff).sess b').bitmapNum, e) ∉ eff.onEmitted g.emitted := by
  refine forall_after (P := fun _ s => ∀ e, s.unlisted = some e →
    (s.bitmapNum, e) ∉ eff.onEmitted g.emitted) ?_ ?_
  · intro e hun hmem
    obtain ⟨hk, hfrom⟩ := hm.unlisted_from hun
    rw [hk] at hmem
    rcases mem_onEmitted.mp hmem with hmem | rfl
    · rcases hfrom with hfrom | rfl
      · exact hE.pending b e hfrom hmem
      · obtain ⟨b', hb'⟩ := hE.held _ hmem
        exact (hO.claimed hm).2 b' hb'
    · rw [hm.of_emit.2.2] at hun
      cases hun
  · intro b' hb e hun hmem
    rcases mem_onEmitted.mp hmem with hmem | rfl
    · exact hE.pending b' e hun hmem
    · -- the emitting backend would hold the same claim
      exact hb (hO.held_unique b' b _ (hO.unlisted_held hun) (hO.emitted_held hm))

theorem Emits.after (hO : Ownership bits₀ g) (hE : Emits g)
    (hm : Session.Move g.bits (g.sess b) a s' eff) (hu : ∀ k e, eff ≠ .resetLock k e) :
    Emits (g.after b s' eff) where
  nodup := hE.nodup_after hm
  held r hr := by
    simp only [hO.held_after hm]
    rcases mem_onEmitted.mp hr with hr | rfl
    · obtain ⟨b', hb'⟩ := hE.held r hr
      exact ⟨b', .inr ⟨hb', hu _ _⟩⟩
    · exact ⟨b, .inr ⟨hO.emitted_held hm, by simp⟩⟩
  listed _ _ := hE.listed_after hO hm
  pending := hE.pending_after hO hm

/-! ## Statements and what they pass -/

/-- The eids backend `b` passes to `MigrateTuple` in a schedule, in order. -/
def passes (b : B) (tr : List (B × Action)) : List Eid :=
  tr.flatMap fun l => if l.1 = b then l.2.passed else []

theorem passes_snoc (b b' : B) (tr : List (B × Action)) (a : Action) :
    passes b (tr ++ [(b', a)]) = passes b tr ++ if b' = b then a.passed else [] := by
  simp [passes]

/-- What has been passed so far is being taken care of, and nothing else is touched. -/
structure Follows (k : BitmapNum) (tr : List (B × Action)) (g : System B) : Prop where
  bitmap : ∀ b, (g.sess b).bitmapNum = k
  flag : ∀ b, (g.sess b).pc.over = false → (g.sess b).migrateflag = true
  running : ∀ b, (g.sess b).pc.over = false → (g.sess b).passed = passes b tr
  done : ∀ b, (g.sess b).pc.over = true → ∀ e ∈ passes b tr, (g.bits (k, e)).migrate = true
  current : ∀ b e, (g.sess b).current = some e → e ∈ (g.sess b).passed
  held : ∀ b, ∀ r ∈ (g.sess b).held, r.1 = k ∧ r.2 ∈ passes b tr

variable {k : BitmapNum} {tr : List (B × Action)}

theorem follows_nil (k : BitmapNum) (bits : Key → Status) :
    Follows k [] (System.statements k bits : System B) := by
  constructor <;> simp [System.statements, passes, Pc.over, Session.current]

theorem Follows.after (hC : Covered g) (hO : Ownership bits₀ g) (hF : Follows k tr g)
    (hm : Session.Move g.bits (g.sess b) a s' eff) (ha : a.inStatement = true)
    (hu : ¬ (g.sess b).undoing) : Follows k (tr ++ [(b, a)]) (g.after b s' eff) := by
  obtain ⟨hk, hf, hphase⟩ := hm.statement ha (hF.flag b) hu
  have passes_ne : ∀ b', b' ≠ b → passes b' (tr ++ [(b, a)]) = passes b' tr := by
    intro b' hb
    simp [passes_snoc, hb.symm]
  have passes_self : passes b (tr ++ [(b, a)]) = passes b tr ++ a.passed := by
    simp [passes_snoc]
  constructor
  · exact forall_after (P := fun _ s => s.bitmapNum = k) (hk.trans (hF.bitmap b))
      fun b' _ => hF.bitmap b'
  · exact forall_after (P := fun _ s => s.pc.over = false → s.migrateflag = true) hf
      fun b' _ => hF.flag b'
  · refine forall_after (P := fun b' s => s.pc.over = false →
      s.passed = passes b' (tr ++ [(b, a)])) ?_ ?_
    · intro hover
      rcases hphase with ⟨-, h, hp⟩ | ⟨h, -⟩
      · rw [hp, passes_self, hF.running b h]
      · rw [hover] at h; cases h
    · intro b' hb h
      rw [passes_ne b' hb]
      exact hF.running b' h
  · refine forall_after (P := fun b' s => s.pc.over = true →
      ∀ e ∈ passes b' (tr ++ [(b, a)]), (eff.onBits g.bits (k, e)).migrate = true) ?_ ?_
    · intro hover e he
      rcases hphase with ⟨h, -⟩ | ⟨-, hp, h⟩
      · rw [hover] at h; cases h
      · rw [passes_self, hp, List.append_nil] at he
        refine Effect.onBits_migrate.mpr (.inl ?_)
        rcases h with h | h
        · -- the barrier
          rw [← hF.running b (by rw [h]; rfl)] at he
          rw [← hF.bitmap b]
          exact hC.migrated h he
        · exact hF.done b h e he
    · intro b' hb h e he
      rw [passes_ne b' hb] at he
      exact Effect.onBits_migrate.mpr (.inl (hF.done b' h e he))
  · exact forall_after (P := fun _ s => ∀ e, s.current = some e → e ∈ s.passed)
      (hm.current_passed (hF.current b)) fun b' _ => hF.current b'
  · intro b' r hr
    have hsub : ∀ e ∈ passes b' tr, e ∈ passes b' (tr ++ [(b, a)]) := by
      intro e he
      rw [passes_snoc]
      exact List.mem_append_left _ he
    rcases (hO.held_after hm b' r).mp hr with ⟨rfl, rfl⟩ | ⟨hr, -⟩
    · have hpc := hm.of_setLock.1
      refine ⟨hm.owing.1.trans (hF.bitmap b'), hsub _ ?_⟩
      rw [← hF.running b' (by rw [hpc]; rfl)]
      exact hF.current b' _ (by simp [Session.current, hpc])
    · exact (hF.held b' r hr).imp_right (hsub _)

/-- Everything known about a run of statements without failures. -/
theorem statements_run
    (r : Machine.Run (protocol B) (fun _ l => l.2.inStatement = true)
      (System.statements k bits₀) tr g) :
    Waits bits₀ g ∧ Emits g ∧ Follows k tr g := by
  have inv : (Waits bits₀ g ∧ ∀ b, ¬ (g.sess b).undoing) ∧ Emits g ∧ Follows k tr g := by
    refine r.tracks (P := fun tr g => (Waits bits₀ g ∧ ∀ b, ¬ (g.sess b).undoing) ∧ Emits g ∧
      Follows k tr g) ?_ ⟨⟨waits_statements k bits₀, by simp [System.statements, Session.undoing]⟩,
        ?_, follows_nil k bits₀⟩
    · rintro tr g ⟨b, a⟩ g' ha hstep ⟨⟨hW, hu⟩, hE, hF⟩
      obtain ⟨s', eff, hm, hen, rfl⟩ := step_cases hstep
      refine ⟨hW.after_errorFree hu hm hen (Action.errorFree_of_inStatement ha),
        hE.after hW.ownership hm ?_, hF.after hW.covered hW.ownership hm ha (hu b)⟩
      rintro k e rfl
      exact hu b (Session.undoing_of_releasing hm.of_resetLock.2.1)
    · constructor <;> simp [System.statements, System.initial, Session.unlisted]
  exact ⟨inv.1.1, inv.2⟩

/-! ## The outcome -/

/-- The claims at the end, when every statement is over. -/
theorem held_iff_of_complete (hW : Waits bits₀ g) (hF : Follows k tr g)
    (hdone : ∀ b, (g.sess b).pc = .idle) (r : Key) :
    (∃ b, r ∈ (g.sess b).held) ↔
      (r.1 = k ∧ ∃ b, r.2 ∈ passes b tr) ∧ (bits₀ r).migrate = false := by
  constructor
  · rintro ⟨b, hb⟩
    obtain ⟨hk, hp⟩ := hF.held b r hb
    exact ⟨⟨hk, b, hp⟩, (hW.ownership.held_fresh b r hb).2⟩
  · rintro ⟨⟨hk, b, hp⟩, hm⟩
    have hset := hF.done b (by rw [hdone b]; rfl) r.2 hp
    subst hk
    refine (hW.ownership.migrate_from r hset).resolve_left ?_
    intro h
    rw [hm] at h; cases h

/-- The bits at the end are a function of what was passed. -/
theorem bits_of_complete (hW : Waits bits₀ g) (hF : Follows k tr g)
    (h₀ : ∀ e, (bits₀ (k, e)).lock = (bits₀ (k, e)).migrate)
    (hdone : ∀ b, (g.sess b).pc = .idle) (r : Key) :
    ((r.1 = k ∧ ∃ b, r.2 ∈ passes b tr) → g.bits r = ⟨true, true⟩) ∧
      (¬ (r.1 = k ∧ ∃ b, r.2 ∈ passes b tr) → g.bits r = bits₀ r) := by
  have hO := hW.ownership
  constructor
  · rintro ⟨rfl, b, hp⟩
    have hmig : (g.bits r).migrate = true := hF.done b (by rw [hdone b]; rfl) r.2 hp
    refine Status.ext ((hO.lock_iff r).mpr ?_) hmig
    -- locked from the start if it was migrated then, and claimed otherwise
    exact (hO.migrate_from r hmig).imp_left fun h => (h₀ r.2).trans h
  · intro hnot
    have hfree : ¬ ∃ b, r ∈ (g.sess b).held := by
      rintro ⟨b, hb⟩
      obtain ⟨hk, hp⟩ := hF.held b r hb
      exact hnot ⟨hk, b, hp⟩
    refine Status.ext (Bool.eq_iff_iff.mpr ?_) (Bool.eq_iff_iff.mpr ⟨?_, hO.migrate_keep r⟩)
    · simp [hO.lock_iff r, hfree]
    · exact fun h => (hO.migrate_from r h).resolve_right hfree

theorem emitted_iff_of_complete (hW : Waits bits₀ g) (hE : Emits g) (hF : Follows k tr g)
    (hdone : ∀ b, (g.sess b).pc = .idle) (r : Key) :
    r ∈ g.emitted ↔ (r.1 = k ∧ ∃ b, r.2 ∈ passes b tr) ∧ (bits₀ r).migrate = false := by
  rw [← held_iff_of_complete hW hF hdone r]
  refine ⟨hE.held r, fun ⟨b, hb⟩ => (hE.listed b r hb).resolve_right ?_⟩
  intro h
  simp [Session.unlisted, hdone b] at h

/-- Statements on bitmap `k`, backend `b` passing `prog b`, from bits with nothing
in progress.  Whatever the schedule in which all of them complete: each eid that
occurs and was unmigrated is emitted exactly once, nothing else is emitted, and the
bitmap is the initial one with both bits set for the eids that occur.  Any two
such schedules agree on the bits and on what is emitted. -/
theorem schedule_independent {prog : B → List Eid}
    (h₀ : ∀ e, (bits₀ (k, e)).lock = (bits₀ (k, e)).migrate)
    (r : Machine.Run (protocol B) (fun _ l => l.2.inStatement = true)
      (System.statements k bits₀) tr g)
    (hprog : ∀ b, passes b tr = prog b) (hdone : ∀ b, (g.sess b).pc = .idle) :
    (∀ b, ∀ e ∈ prog b, (bits₀ (k, e)).migrate = false → g.emitted.count (k, e) = 1) ∧
    (∀ key ∈ g.emitted, key.1 = k ∧ (∃ b, key.2 ∈ prog b) ∧ (bits₀ key).migrate = false) ∧
    (∀ key, ((key.1 = k ∧ ∃ b, key.2 ∈ prog b) → g.bits key = ⟨true, true⟩) ∧
      (¬ (key.1 = k ∧ ∃ b, key.2 ∈ prog b) → g.bits key = bits₀ key)) ∧
    (∀ tr' g', Machine.Run (protocol B) (fun _ l => l.2.inStatement = true)
        (System.statements k bits₀) tr' g' →
      (∀ b, passes b tr' = prog b) → (∀ b, (g'.sess b).pc = .idle) →
      g'.bits = g.bits ∧ ∀ key, key ∈ g'.emitted ↔ key ∈ g.emitted) := by
  obtain ⟨hW, hE, hF⟩ := statements_run r
  have bits := bits_of_complete hW hF h₀ hdone
  have emitted := emitted_iff_of_complete hW hE hF hdone
  simp only [hprog] at bits emitted
  refine ⟨?_, ?_, bits, ?_⟩
  · intro b e he hm
    exact List.count_eq_one_of_mem hE.nodup ((emitted (k, e)).mpr ⟨⟨rfl, b, he⟩, hm⟩)
  · intro key hkey
    obtain ⟨⟨hk, hp⟩, hm⟩ := (emitted key).mp hkey
    exact ⟨hk, hp, hm⟩
  · -- another complete interleaving has the same bits and the same emitted tuples
    intro tr' g' r' hprog' hdone'
    obtain ⟨hW', hE', hF'⟩ := statements_run r'
    have bits' := bits_of_complete hW' hF' h₀ hdone'
    have emitted' := emitted_iff_of_complete hW' hE' hF' hdone'
    simp only [hprog'] at bits' emitted'
    refine ⟨funext ?_, fun key => (emitted' key).trans (emitted key).symm⟩
    intro key
    by_cases h : key.1 = k ∧ ∃ b, key.2 ∈ prog b
    · rw [(bits key).1 h, (bits' key).1 h]
    · rw [(bits key).2 h, (bits' key).2 h]

/-- Two statements that meet on tuple 5, one of them twice, from a bitmap in which
tuple 7 is migrated. -/
theorem schedule_independent_overlap :
    ∃ tr g, Machine.Run (protocol Bool) (fun _ l => l.2.inStatement = true)
        (System.statements 0 fun r => ⟨r.2 == 7, r.2 == 7⟩) tr g ∧
      (∀ b, (g.sess b).pc = .idle) ∧ g.emitted.count (0, 5) = 1 ∧ g.emitted.count (0, 6) = 1 ∧
      g.bits (0, 5) = ⟨true, true⟩ ∧ g.bits (0, 8) = ⟨false, false⟩ := by
  let prog (b : Bool) : List Eid := if b then [5, 6, 7] else [5, 5]
  let tr : List (Bool × Action) := [(false, .pass 5), (true, .pass 5)] ++ nexts false 2 ++
    nexts true 9 ++ nexts false 5 ++ [(false, .pass 5)] ++ nexts false 3 ++
    [(false, .portalEnd)] ++ nexts false 4 ++ claim true 6 ++ [(true, .pass 7)] ++ nexts true 1 ++
    [(true, .portalEnd)] ++ nexts true 5 ++ nexts false 5
  obtain ⟨g, run, h⟩ := (protocol Bool).exists_runIn (fun _ l => l.2.inStatement = true)
    (s := System.statements 0 fun r => ⟨r.2 == 7, r.2 == 7⟩) tr
    (p := fun g => decide (∀ b, (g.sess b).pc = .idle)) (by decide +kernel)
  have hdone := of_decide_eq_true h
  obtain ⟨once, -, bits, -⟩ := schedule_independent (fun _ => rfl) run
    (show ∀ b, passes b tr = prog b by decide) hdone
  refine ⟨tr, g, run, hdone, once false 5 (by decide) rfl, once true 6 (by decide) rfl,
    (bits (0, 5)).1 (by decide), (bits (0, 8)).2 (by decide)⟩

end

end BullFrog
