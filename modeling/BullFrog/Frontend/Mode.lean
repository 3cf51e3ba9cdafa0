/-
# `BullFrog.Frontend.Mode` — whose statement the migration mode belongs to

The mode is four globals: `migrateflag`, `BitmapNum`, `PartialBitmap` and the lists.
A Bind that recognises a migration statement sets them, the end of
`post_query_tasks` or of `txn_error_handling` clears the flag, and nothing else writes
them.  Which portal is being run plays no part in it, so whether the mode is that of
the portal depends on the order of the messages and of what happened to the statements
before:

    recognises        the step is a Bind that recognises a migration statement
    endsStatement     the step is the return of a statement, or its failure with clean-up
    ModeOf f p        the mode in f is the one the portal p needs
    mode_belongs_iff  at a call of PortalRun for a portal of the migration, ModeOf holds iff
                      since some Bind of that migration no statement has ended and no Bind
                      has recognised the other one; for an ordinary portal, iff after every
                      recognised Bind some statement has ended

The invariant (`Follows`) relates the globals to the history of the run.  It cannot simply
say that the flag is on iff a Bind is waiting: between the return of `PortalRun` and the end of
`post_query_tasks` the statement is over and the flag still on (`Pc.cleaning`).
-/
import BullFrog.Lib.Latch
import BullFrog.Frontend.Messages
import BullFrog.Protocol.Waiting

namespace BullFrog

/-! ## What a step does to the mode -/

/-- `post_query_tasks` or `txn_error_handling` is at work. -/
def Pc.cleaning : Pc → Bool
  | .setMigrate _ | .sweep _ _ | .freeLists | .resetLock _ => true
  | _ => false

namespace Session

variable {bits : Key → Status} {s s' : Session} {a : Action} {eff : Effect}

theorem cleaning_of_canFail (h : canFail s.pc = true) : s.pc.cleaning = false := by
  cases hpc : s.pc <;> simp_all [canFail, Pc.cleaning]

/-- A step that is no Bind, ends no statement and has nothing to undo leaves the mode as it
is, or is the last one of a clean-up. -/
theorem Move.mode_kept (h : Move bits s a s' eff) (hb : ∀ k, a ≠ .bind k) (hp : a ≠ .portalEnd)
    (hu : ∀ x, a = .error x → s.mustUndo x = false) :
    s'.bitmapNum = s.bitmapNum ∧
      (s'.pc.cleaning = s.pc.cleaning ∧ s'.migrateflag = s.migrateflag ∨
        s.pc.cleaning = true ∧ s'.pc.cleaning = false ∧ s'.migrateflag = false) := by
  cases h with
  | bind k => exact absurd rfl (hb k)
  | endMigration | endOther => exact absurd rfl hp
  | failUndo x _ hundo => rw [hu x rfl] at hundo; cases hundo
  | fail x hc _ => exact ⟨rfl, .inl ⟨(cleaning_of_canFail hc).symm, rfl⟩⟩
  | freeLists hpc | undone hpc => exact ⟨rfl, .inr ⟨by rw [hpc]; rfl, rfl, rfl⟩⟩
  | leaveLoop hpc _ | startSweep hpc _ =>
      refine ⟨rfl, .inl ⟨?_, rfl⟩⟩
      rcases hpc with hpc | ⟨_, hpc⟩ <;> simp [hpc, Pc.cleaning]
  | finishPending _ _ hpc _ | finishCommit _ _ hpc _ | finishDiscard _ _ hpc _ =>
      refine ⟨rfl, .inl ⟨?_, rfl⟩⟩
      rcases hpc with ⟨-, hpc⟩ | ⟨-, hpc⟩ <;> simp [hpc, Pc.cleaning]
  | execute _ hpc | pass _ hpc | noInsert _ hpc | seenMigrated _ hpc | readMigrate _ hpc
  | seenLocked _ hpc | readLock _ hpc | acquire _ hpc | foundMigrated _ hpc
  | recheckMigrate _ hpc | foundLocked _ hpc | recheckLock _ hpc | setLock _ hpc
  | releaseClaimed _ hpc | appendClaimed _ hpc | insertRow _ hpc | releaseBusy _ hpc
  | appendBusy _ hpc | releaseDone _ hpc | setMigrate _ _ hpc | deleteCell _ _ _ hpc
  | keepCell _ _ _ hpc | endStatement hpc | resetLock _ _ hpc =>
      exact ⟨rfl, .inl ⟨by rw [hpc]; rfl, rfl⟩⟩

/-- The flag is off and the program counter outside the code that reads the bitmaps. -/
def Outside (s : Session) : Prop :=
  s.migrateflag = false ∧ (s.pc = .idle ∨ s.pc = .scan ∨ s.pc = .ending)

/-- Without the flag no tuple is handed to `MigrateTuple` and no status bit is written. -/
theorem Move.untouched (h : Move bits s a s' eff) (hs : s.Outside) :
    (∀ e, a ≠ .pass e) ∧ ∀ b, eff.onBits b = b := by
  obtain ⟨hflag, hpc⟩ := hs
  cases h with
  | pass e _ hon => rw [hflag] at hon; cases hon
  | setLock e he => simp [he] at hpc
  | setMigrate e todo he => simp [he] at hpc
  | resetLock e todo he => simp [he] at hpc
  | finishPending _ _ ha => rcases ha with ⟨rfl, -⟩ | ⟨rfl, -⟩ <;> exact ⟨nofun, fun _ => rfl⟩
  | finishCommit _ _ ha => rcases ha with ⟨rfl, -⟩ | ⟨rfl, -⟩ <;> exact ⟨nofun, fun _ => rfl⟩
  | finishDiscard _ _ ha => rcases ha with ⟨rfl, -⟩ | ⟨rfl, -⟩ <;> exact ⟨nofun, fun _ => rfl⟩
  | _ => exact ⟨nofun, fun _ => rfl⟩

/-- Only a Bind leads back to the code that reads the bitmaps. -/
theorem Move.outside (h : Move bits s a s' eff) (hb : ∀ k, a ≠ .bind k) (hs : s.Outside) :
    s'.Outside := by
  obtain ⟨hflag, hpc⟩ := hs
  cases h with
  | bind k => exact absurd rfl (hb k)
  | execute => exact ⟨hflag, .inr (.inl rfl)⟩
  | endOther => exact ⟨hflag, .inr (.inr rfl)⟩
  | endStatement => exact ⟨hflag, .inl rfl⟩
  | finishPending => exact ⟨hflag, .inl rfl⟩
  | finishCommit => exact ⟨hflag, .inl rfl⟩
  | finishDiscard => exact ⟨hflag, .inl rfl⟩
  | fail => exact ⟨hflag, .inl rfl⟩
  | failUndo x _ hu => simp [mustUndo, hflag] at hu
  | leaveLoop he => rcases he with he | ⟨_, he⟩ <;> simp [he] at hpc
  | startSweep he => rcases he with he | ⟨_, he⟩ <;> simp [he] at hpc
  | _ => simp_all

end Session

/-- The state at the end of a handler. -/
def Outcome.state {N : Type} : Outcome N → Frontend N
  | .done f => f
  | .error f _ => f
  | .portalRun f _ _ => f

/-- The errors of the handlers are not those that `txn_error_handling` is called for, and
`PortalRun` is called for the portal of the name. -/
def Outcome.Plain {N : Type} : Outcome N → Prop
  | .done _ => True
  | .error _ x => x.callsTxnErrorHandling = false
  | .portalRun f name p => f.portals name = some p

/-- The events of the statement that is being run. -/
def Event.InStatement {N : Type} : Event N → Prop
  | .run _ | .error _ => True
  | _ => False

/-- The event is a Bind of the portal. -/
def Event.BindsPortal {N : Type} (ev : Event N) (portal : Option N) : Prop :=
  ∃ stmt fault, ev = .message (.bind portal stmt) fault

/-! ## Histories -/

/-- A step of a session: the state it is made in, the status bits and the event. -/
abbrev FrontendStep (N : Type) := Frontend N × ((Key → Status) × Event N)

namespace Frontend

variable {N : Type} {f g : Frontend N} {bits : Key → Status} {past : List (FrontendStep N)}

/-- The migration statement that a Bind recognises, unless it is skipped. -/
def recognises (x : FrontendStep N) : Option BitmapNum :=
  match x.2.2 with
  | .message (.bind _ stmt) _ =>
      if x.1.ignoreTillSync then none
      else (x.1.fetchStatement stmt).bind fun psrc => migrationOf psrc.queryString
  | _ => none

/-- `PortalRun` returns, whichever portal it was called for, or the statement fails in the
check of a write that has claims to undo. -/
def endsStatement (x : FrontendStep N) : Bool :=
  match x.2.2 with
  | .run .portalEnd => true
  | .error e => e.callsTxnErrorHandling && !x.1.sess.inProgLocalList0.isEmpty
  | _ => false

/-- The Bind that is waiting for its statement to end. -/
def waiting (past : List (FrontendStep N)) : Option BitmapNum :=
  Latch.latch recognises endsStatement past

/-- The migration the portal of a name belongs to. -/
def kind (f : Frontend N) (portal : Option N) : Option BitmapNum :=
  (f.portals portal).bind Portal.migration

/-- The globals are what the history makes them, and the portals of the migration come from
Binds in it. -/
structure Follows (past : List (FrontendStep N)) (f : Frontend N) : Prop where
  mode : f.sess.Mode
  ended : f.sess.pc.cleaning = true → waiting past = none
  flag : f.sess.pc.cleaning = false → f.sess.migrateflag = (waiting past).isSome
  bitmap : ∀ k, waiting past = some k →
    f.sess.bitmapNum = k ∧ f.partialBitmap = some (k * bitmapSize)
  bound : ∀ portal k, f.kind portal = some k →
    ∃ x ∈ past, recognises x = some k ∧ x.2.2.BindsPortal portal

theorem follows_initial : Follows [] ({} : Frontend N) where
  mode := ⟨nofun, fun _ => rfl, fun _ => rfl⟩
  ended := nofun
  flag _ := rfl
  bitmap := nofun
  bound := nofun

/-- What is left of the session's globals without the state of the transaction. -/
def globals (f : Frontend N) : Session × Option Nat :=
  ({ f.sess with xact := .default }, f.partialBitmap)

/-- The handler has not touched the globals, and has made no portal of the migration. -/
structure Keeps (f g : Frontend N) : Prop where
  globals : g.globals = f.globals
  kind : ∀ portal k, g.kind portal = some k → f.kind portal = some k

theorem Keeps.refl (f : Frontend N) : Keeps f f := ⟨rfl, fun _ _ h => h⟩

theorem Keeps.trans {f' : Frontend N} (h : Keeps f f') (h' : Keeps f' g) : Keeps f g :=
  ⟨h'.globals.trans h.globals, fun portal k hk => h.kind portal k (h'.kind portal k hk)⟩

theorem Follows.of_keeps (hf : Follows past f) (h : Keeps f g) : Follows past g := by
  have field : ∀ {α : Type} (read : Session → α),
      (read { g.sess with xact := .default }) = read { f.sess with xact := .default } :=
    fun read => congrArg (fun c => read c.1) h.globals
  have hpc : g.sess.pc = f.sess.pc := field Session.pc
  have hflag : g.sess.migrateflag = f.sess.migrateflag := field Session.migrateflag
  have hnum : g.sess.bitmapNum = f.sess.bitmapNum := field Session.bitmapNum
  have hpart : g.partialBitmap = f.partialBitmap := congrArg Prod.snd h.globals
  refine ⟨⟨?_, ?_, ?_⟩, ?_, ?_, ?_, fun portal k hk => hf.bound portal k (h.kind portal k hk)⟩
  · rw [hpc, hflag]
    exact hf.mode.flag
  · rw [hflag, show g.sess.inProgLocalList0 = _ from field Session.inProgLocalList0]
    exact hf.mode.list0
  · rw [hflag, show g.sess.inProgLocalList1 = _ from field Session.inProgLocalList1]
    exact hf.mode.list1
  · rw [hpc]
    exact hf.ended
  · rw [hpc, hflag]
    exact hf.flag
  · rw [hnum, hpart]
    exact hf.bitmap

/-- A step of the session that is no Bind, ends no statement and has nothing to undo. -/
theorem Follows.of_step {a : Action} {r : Session × Effect} (hf : Follows past f)
    (h : f.sess.step bits a = some r) (hb : ∀ k, a ≠ .bind k) (hp : a ≠ .portalEnd)
    (hu : ∀ x, a = .error x → f.sess.mustUndo x = false) (hs : g.sess = r.1)
    (hpart : g.partialBitmap = f.partialBitmap)
    (hkind : ∀ portal k, g.kind portal = some k → f.kind portal = some k) : Follows past g := by
  have hm : Session.Move bits f.sess a g.sess r.2 := hs ▸ Session.move_of_step h
  obtain ⟨hnum, hkept⟩ := hm.mode_kept hb hp hu
  refine ⟨hm.mode hf.mode, ?_, ?_, ?_, fun portal k hk => hf.bound portal k (hkind portal k hk)⟩
  · intro hclean
    rcases hkept with ⟨hpc, -⟩ | ⟨-, hpc, -⟩
    · exact hf.ended (hpc ▸ hclean)
    · rw [hpc] at hclean
      cases hclean
  · intro hclean
    rcases hkept with ⟨hpc, hflag⟩ | ⟨hwas, -, hflag⟩
    · rw [hflag]
      exact hf.flag (hpc ▸ hclean)
    · rw [hflag, hf.ended hwas]
      rfl
  · rw [hnum, hpart]
    exact hf.bitmap

/-- A step that is neither a recognised Bind nor the end of a statement goes into the history
and changes nothing. -/
theorem Follows.snoc {x : FrontendStep N} (hf : Follows past f) (hr : recognises x = none)
    (he : endsStatement x = false) : Follows (past ++ [x]) f := by
  have hw : waiting (past ++ [x]) = waiting past := by
    rw [waiting, Latch.latch_snoc, hr, he]
    rfl
  refine ⟨hf.mode, ?_, ?_, ?_, fun portal k hk => ?_⟩
  · rw [hw]
    exact hf.ended
  · rw [hw]
    exact hf.flag
  · rw [hw]
    exact hf.bitmap
  · obtain ⟨y, hy, hyk⟩ := hf.bound portal k hk
    exact ⟨y, List.mem_append_left _ hy, hyk⟩

theorem waiting_of_ends {x : FrontendStep N} (hr : recognises x = none)
    (he : endsStatement x = true) : waiting (past ++ [x]) = none := by
  rw [waiting, Latch.latch_snoc, hr, he]
  rfl

/-! ## What the handlers keep -/

theorem keeps_startXactCommand : Keeps f f.startXactCommand := ⟨rfl, fun _ _ h => h⟩

theorem kind_portalsAtCommit {portal : Option N} {k : BitmapNum}
    (h : (f.portalsAtCommit portal).bind Portal.migration = some k) : f.kind portal = some k := by
  unfold portalsAtCommit at h
  split at h
  · exact h
  · cases h

theorem kind_portalsAtAbort {portal : Option N} {k : BitmapNum}
    (h : (f.portalsAtAbort portal).bind Portal.migration = some k) : f.kind portal = some k := by
  unfold portalsAtAbort at h
  split at h
  · rw [Option.bind_map] at h
    exact h
  · cases h

theorem Follows.finishXactCommand (hf : Follows past f)
    (h : f.finishXactCommand bits = some g) : Follows past g := by
  obtain ⟨r, hr, rfl⟩ := Option.map_eq_some_iff.mp h
  exact hf.of_step hr (fun _ => nofun) nofun (fun _ => nofun) rfl rfl
    fun _ _ => kind_portalsAtCommit

theorem Follows.ereport {x : ErrorExit} (hf : Follows past f) (hx : f.sess.mustUndo x = false)
    (h : f.ereport bits x = some g) : Follows past g := by
  obtain ⟨r, hr, rfl⟩ := Option.map_eq_some_iff.mp h
  refine hf.of_step hr (fun _ => nofun) nofun ?_ rfl rfl fun _ _ => kind_portalsAtAbort
  rintro y ⟨⟩
  exact hx

theorem mustUndo_of_not_calls {s : Session} {x : ErrorExit}
    (h : x.callsTxnErrorHandling = false) : s.mustUndo x = false := by
  simp [Session.mustUndo, h]

/-- A Bind that recognises a migration statement begins the mode anew. -/
theorem Follows.recognise {x : FrontendStep N} {text : Text} (hf : Follows past f)
    (hx : recognises x = migrationOf text) (he : endsStatement x = false)
    (h : f.recognise bits text = some g) : Follows (past ++ [x]) g := by
  unfold Frontend.recognise at h
  split at h
  · rename_i k hk
    rw [hk] at hx
    obtain ⟨r, hr, rfl⟩ := Option.map_eq_some_iff.mp h
    have hmode := (Session.move_of_step hr).mode hf.mode
    simp only [Session.step] at hr
    split at hr <;> cases hr
    rename_i hpc
    have hw : waiting (past ++ [x]) = some k := by
      rw [waiting, Latch.latch_snoc, hx]
      rfl
    refine ⟨hmode, ?_, ?_, ?_, fun portal k hk => ?_⟩
    · intro hclean
      rw [hpc] at hclean
      cases hclean
    · intro _
      rw [hw]
      rfl
    · intro k' hk'
      rw [hw] at hk'
      cases hk'
      exact ⟨rfl, rfl⟩
    · obtain ⟨y, hy, hyk⟩ := hf.bound portal k hk
      exact ⟨y, List.mem_append_left _ hy, hyk⟩
  · rename_i hk
    cases h
    exact (hf.snoc (hx.trans hk) he).of_keeps keeps_startXactCommand

/-- A failure in the check of a write, with claims to undo, is the end of the statement too. -/
theorem Follows.fails {x : ErrorExit} (hf : Follows past f) (hx : f.sess.mustUndo x = true)
    (h : f.ereport bits x = some g) : Follows (past ++ [(f, (bits, .error x))]) g := by
  have hends : endsStatement (f, (bits, .error x)) = true := by
    simp only [Session.mustUndo, Bool.and_eq_true] at hx
    simp only [endsStatement, hx.1.1, hx.2, Bool.and_self]
  have hw : waiting (past ++ [(f, (bits, .error x))]) = none := waiting_of_ends rfl hends
  obtain ⟨r, hr, rfl⟩ := Option.map_eq_some_iff.mp h
  have hm := Session.move_of_step hr
  refine ⟨hm.mode hf.mode, fun _ => hw, ?_, ?_, fun portal k hk => ?_⟩
  · intro hclean
    simp only [Session.step, hx, if_true] at hr
    split at hr <;> cases hr
    cases hclean
  · intro k hk
    rw [hw] at hk
    cases hk
  · obtain ⟨y, hy, hyk⟩ := hf.bound portal k (kind_portalsAtAbort hk)
    exact ⟨y, List.mem_append_left _ hy, hyk⟩

/-- A failure without clean-up ends the statement and leaves the mode to the next one. -/
theorem Follows.not_ends {x : ErrorExit} (hf : Follows past f) (hx : f.sess.mustUndo x = false) :
    endsStatement (f, (bits, .error x)) = false := by
  cases hcalls : x.callsTxnErrorHandling with
  | false => simp [endsStatement, hcalls]
  | true =>
      cases hflag : f.sess.migrateflag with
      | false => simp [endsStatement, hf.mode.list0 hflag]
      | true => simpa [Session.mustUndo, hcalls, hflag, endsStatement] using hx

theorem keeps_execExecuteMessage {portal : Option N} {fault : Option Fault} :
    Keeps f (f.execExecuteMessage portal fault).state ∧
      (f.execExecuteMessage portal fault).Plain := by
  unfold execExecuteMessage
  split
  · exact ⟨.refl f, rfl⟩
  · split
    · exact ⟨.refl f, trivial⟩
    · split
      · exact ⟨keeps_startXactCommand, rfl⟩
      · exact ⟨keeps_startXactCommand, ‹_›⟩

section Handlers

variable [DecidableEq N]

/-- Putting a portal of no migration under a name, or none at all. -/
theorem keeps_setPortal {portal : Option N} {p : Option Portal}
    (h : p.bind Portal.migration = none) : Keeps f (f.setPortal portal p) := by
  refine ⟨rfl, fun name k hk => ?_⟩
  change (Function.update f.portals portal p name).bind Portal.migration = some k at hk
  by_cases hname : name = portal
  · subst hname
    rw [Function.update_self, h] at hk
    cases hk
  · rwa [Function.update_of_ne hname] at hk

theorem keeps_dropStatement {stmt : Option N} : Keeps f (f.dropStatement stmt) := by
  cases stmt <;> exact ⟨rfl, fun _ _ h => h⟩

theorem keeps_storeStatement {psrc : CachedPlanSource} {stmt : Option N} :
    Keeps f (f.storeStatement psrc stmt).state ∧ (f.storeStatement psrc stmt).Plain := by
  cases stmt with
  | none => exact ⟨⟨rfl, fun _ _ h => h⟩, trivial⟩
  | some n =>
      simp only [storeStatement]
      split
      · exact ⟨.refl f, rfl⟩
      · exact ⟨⟨rfl, fun _ _ h => h⟩, trivial⟩

theorem keeps_execParseMessage {parse : Text → Option (List RawStmt)} {stmt : Option N}
    {text : Text} {fault : Option Fault} :
    Keeps f (f.execParseMessage parse stmt text fault).state ∧
      (f.execParseMessage parse stmt text fault).Plain := by
  have hdrop : Keeps f (if stmt = none then f.startXactCommand.dropStatement none
      else f.startXactCommand) := by
    split
    · exact keeps_startXactCommand.trans keeps_dropStatement
    · exact keeps_startXactCommand
  simp only [execParseMessage]
  -- `g` is the state once the unnamed statement is dropped
  generalize (if stmt = none then f.startXactCommand.dropStatement none
    else f.startXactCommand) = g at hdrop ⊢
  split
  · exact ⟨hdrop.trans keeps_storeStatement.1, keeps_storeStatement.2⟩
  · split
    · exact ⟨hdrop, rfl⟩
    · exact ⟨hdrop.trans keeps_storeStatement.1, keeps_storeStatement.2⟩
  · exact ⟨hdrop, rfl⟩

theorem keeps_execSimpleQuery {parse : Text → Option (List RawStmt)} {text : Text}
    {fault : Option Fault} :
    Keeps f (f.execSimpleQuery parse text fault).state ∧
      (f.execSimpleQuery parse text fault).Plain := by
  simp only [execSimpleQuery]
  split
  · exact ⟨⟨rfl, fun _ _ h => h⟩, trivial⟩
  · exact ⟨⟨rfl, fun _ _ h => h⟩, rfl⟩

theorem keeps_nextStatement {fault : Option Fault} {o : Outcome N}
    (h : f.nextStatement fault = some o) : Keeps f o.state ∧ o.Plain := by
  unfold nextStatement at h
  split at h
  · cases h
  · rename_i t rest hrest
    simp only at h
    split at h
    · cases h
      exact ⟨.refl f, rfl⟩
    · cases h
      have hparsed : Keeps f { f.startXactCommand with parsetrees := rest } :=
        ⟨rfl, fun _ _ h => h⟩
      refine ⟨hparsed.trans (keeps_setPortal rfl), ?_⟩
      simp [Outcome.Plain, setPortal]

theorem keeps_handle {parse : Text → Option (List RawStmt)} {fault : Option Fault}
    {m : Message N} {o : Outcome N} (hb : ∀ portal stmt, m ≠ .bind portal stmt) (hs : m ≠ .sync)
    (h : f.handle parse bits fault m = some o) : Keeps f o.state ∧ o.Plain := by
  cases m with
  | parse stmt text => cases h; exact keeps_execParseMessage
  | bind portal stmt => exact absurd rfl (hb portal stmt)
  | execute portal => cases h; exact keeps_execExecuteMessage
  | closeStatement stmt => cases h; exact ⟨keeps_dropStatement, trivial⟩
  | closePortal portal => cases h; exact ⟨keeps_setPortal rfl, trivial⟩
  | sync => exact absurd rfl hs
  | query text => cases h; exact keeps_execSimpleQuery

/-! ## Steps and runs -/

/-- The portal that is made by a Bind, if any, has no part in the globals. -/
theorem Follows.setPortal {portal : Option N} {p : Portal} (hf : Follows past f)
    (h : ∀ k, p.migration = some k →
      ∃ x ∈ past, recognises x = some k ∧ x.2.2.BindsPortal portal) :
    Follows past (f.setPortal portal (some p)) := by
  refine ⟨hf.mode, hf.ended, hf.flag, hf.bitmap, fun name k hk => ?_⟩
  change (Function.update f.portals portal (some p) name).bind Portal.migration = some k at hk
  by_cases hname : name = portal
  · subst hname
    rw [Function.update_self] at hk
    exact h k hk
  · rw [Function.update_of_ne hname] at hk
    exact hf.bound name k hk

/-- What follows the outcome of a handler. -/
theorem Follows.resume {o : Outcome N} (hf : Follows past o.state) (ho : o.Plain)
    (h : o.resume bits = some g) : Follows past g := by
  cases o with
  | done f => cases h; exact hf
  | error f x => exact hf.ereport (mustUndo_of_not_calls ho) h
  | portalRun f name p =>
      simp only [Outcome.resume, portalRun] at h
      split at h
      · obtain ⟨r, hr, rfl⟩ := Option.map_eq_some_iff.mp h
        have hrun : Follows past { f with sess := r.1 } :=
          hf.of_step hr (fun _ => nofun) nofun (fun _ => nofun) rfl rfl fun _ _ h => h
        refine hrun.setPortal (p := { p with status := .active }) fun k hk => hf.bound name k ?_
        rw [Outcome.state, kind, ho]
        exact hk
      · exact hf.ereport (mustUndo_of_not_calls rfl) h

theorem Follows.bind {portal stmt : Option N} {fault : Option Fault} {o : Outcome N}
    {x : FrontendStep N} (hf : Follows past f) (hev : x.2.2 = .message (.bind portal stmt) fault)
    (hx : recognises x = (f.fetchStatement stmt).bind fun psrc => migrationOf psrc.queryString)
    (h : f.execBindMessage bits portal stmt fault = some o) :
    Follows (past ++ [x]) o.state ∧ o.Plain := by
  have he : endsStatement x = false := by rw [endsStatement, hev]
  unfold execBindMessage at h
  split at h
  · rename_i hnone
    cases h
    rw [hnone] at hx
    exact ⟨hf.snoc hx he, rfl⟩
  · rename_i psrc hsome
    rw [hsome] at hx
    obtain ⟨g, hg, rfl⟩ := Option.map_eq_some_iff.mp h
    have hg : Follows (past ++ [x]) g := hf.recognise hx he hg
    have own : ∀ k, migrationOf psrc.queryString = some k →
        ∃ y ∈ past ++ [x], recognises y = some k ∧ y.2.2.BindsPortal portal :=
      fun k hk => ⟨x, by simp, hx.trans hk, stmt, fault, hev⟩
    split
    · exact ⟨hg, rfl⟩
    · split
      · exact ⟨hg.setPortal nofun, rfl⟩
      · exact ⟨hg.setPortal own, rfl⟩
      · exact ⟨hg.setPortal own, trivial⟩

theorem Follows.message {parse : Text → Option (List RawStmt)} {m : Message N}
    {fault : Option Fault} {o : Outcome N} (hf : Follows past f)
    (h : f.receive parse bits m fault = some o) :
    Follows (past ++ [(f, (bits, .message m fault))]) o.state ∧ o.Plain := by
  simp only [receive] at h
  have hread : ∀ ignore extended,
      Keeps f { f with ignoreTillSync := ignore, doingExtendedQueryMessage := extended } :=
    fun _ _ => ⟨rfl, fun _ _ h => h⟩
  by_cases hbind : ∃ portal stmt, m = .bind portal stmt
  · obtain ⟨portal, stmt, rfl⟩ := hbind
    cases hskip : f.ignoreTillSync with
    | true =>
        simp only [hskip, Message.isSync, Bool.not_false, Bool.and_self, if_true] at h
        cases h
        refine ⟨(hf.snoc ?_ rfl).of_keeps (hread _ _), trivial⟩
        simp only [recognises, hskip, if_true]
    | false =>
        simp only [hskip, Bool.false_and, Bool.false_eq_true, if_false, handle] at h
        refine Follows.bind (hf.of_keeps (hread _ _)) rfl ?_ h
        simp only [recognises, hskip, Bool.false_eq_true, if_false]
        rfl
  · have hplain := hf.snoc (x := (f, (bits, .message m fault))) (by
      rw [recognises]
      split
      · rename_i portal stmt _ heq
        cases heq
        exact absurd ⟨portal, stmt, rfl⟩ hbind
      · rfl) rfl
    split at h
    · cases h
      exact ⟨hplain.of_keeps (hread _ _), trivial⟩
    · have hread := hplain.of_keeps (hread (f.ignoreTillSync && !m.isSync) m.isExtended)
      by_cases hsync : m = .sync
      · subst hsync
        simp only [handle] at h
        split at h
        · cases h
          exact ⟨hread, rfl⟩
        · obtain ⟨g, hg, rfl⟩ := Option.map_eq_some_iff.mp h
          exact ⟨hread.finishXactCommand hg, trivial⟩
      · obtain ⟨hkeeps, hplain⟩ := keeps_handle (fun p s hm => hbind ⟨p, s, hm⟩) hsync h
        exact ⟨hread.of_keeps hkeeps, hplain⟩

theorem step_of_runStep {a : Action} (h : f.runStep bits a = some g) :
    ∃ s' eff, f.sess.step bits a = some (s', eff) ∧ (∀ k, a ≠ .bind k) ∧
      (∀ x, a ≠ .error x) ∧ g.sess = s' ∧ g.partialBitmap = f.partialBitmap := by
  cases a with
  | pass | noInsert | portalEnd | next =>
      obtain ⟨r, hr, rfl⟩ := Option.map_eq_some_iff.mp h
      exact ⟨r.1, r.2, hr, fun _ => nofun, fun _ => nofun, rfl, rfl⟩
  | bind | execute | error | sync => cases h

/-- A statement that runs or returns makes no portal. -/
theorem kind_of_runStep {a : Action} (h : f.runStep bits a = some g) {portal : Option N}
    {k : BitmapNum} (hk : g.kind portal = some k) : f.kind portal = some k := by
  cases a with
  | pass | noInsert =>
      obtain ⟨r, -, rfl⟩ := Option.map_eq_some_iff.mp h
      exact hk
  | portalEnd =>
      obtain ⟨r, -, rfl⟩ := Option.map_eq_some_iff.mp h
      change ((if f.inSimpleQuery then Function.update f.portals none none
        else fun n => (f.portals n).map Portal.returned) portal).bind Portal.migration =
          some k at hk
      split at hk
      · have hkeeps : Keeps f (f.setPortal none none) := keeps_setPortal rfl
        exact hkeeps.kind portal k hk
      · rw [Option.bind_map] at hk
        obtain ⟨p, hp, hpk⟩ := Option.bind_eq_some_iff.mp hk
        refine Option.bind_eq_some_iff.mpr ⟨p, hp, ?_⟩
        simp only [Function.comp, Portal.returned] at hpk
        split at hpk <;> exact hpk
  | next =>
      obtain ⟨r, -, rfl⟩ := Option.map_eq_some_iff.mp h
      change ((if f.sess.pc = .ending ∧ f.sess.stmt.isSome then f.portalsAtCommit
        else f.portals) portal).bind Portal.migration = some k at hk
      split at hk
      · exact kind_portalsAtCommit hk
      · exact hk
  | bind | execute | error | sync => cases h

/-- `PortalRun` returns: the statement is over, and `post_query_tasks` clears the mode if it is
on. -/
theorem Follows.portalEnd (hf : Follows past f) (h : f.runStep bits .portalEnd = some g) :
    Follows (past ++ [(f, (bits, .run .portalEnd))]) g := by
  obtain ⟨s', eff, hstep, -, -, rfl, hpart⟩ := step_of_runStep h
  have hm := Session.move_of_step hstep
  have hw : waiting (past ++ [(f, (bits, .run .portalEnd))]) = none := waiting_of_ends rfl rfl
  refine ⟨hm.mode hf.mode, fun _ => hw, ?_, ?_, fun portal k hk => ?_⟩
  · rw [hw]
    intro hclean
    simp only [Session.step] at hstep
    split at hstep
    · cases hflag : f.sess.migrateflag with
      | true =>
          rw [hflag] at hstep
          rw [← (Prod.mk.inj (Option.some.inj hstep)).1] at hclean
          cases hclean
      | false =>
          rw [← (Prod.mk.inj (Option.some.inj hstep)).1]
          exact hflag
    · cases hstep
  · intro k hk
    rw [hw] at hk
    cases hk
  · obtain ⟨y, hy, hyk⟩ := hf.bound portal k (kind_of_runStep h hk)
    exact ⟨y, List.mem_append_left _ hy, hyk⟩

/-- Every step goes into the history, and the globals follow. -/
theorem Follows.step {parse : Text → Option (List RawStmt)} {i : (Key → Status) × Event N}
    (hf : Follows past f) (h : (frontend N parse).step f i = some g) :
    Follows (past ++ [(f, i)]) g := by
  obtain ⟨bits, ev⟩ := i
  obtain ⟨o, ho, hres⟩ := Option.bind_eq_some_iff.mp h
  cases ev with
  | message m fault =>
      simp only [dispatch] at ho
      split at ho
      · obtain ⟨hstate, hplain⟩ := hf.message ho
        exact hstate.resume hplain hres
      · cases ho
  | nextStmt fault =>
      simp only [dispatch] at ho
      split at ho
      · obtain ⟨hkeeps, hplain⟩ := keeps_nextStatement ho
        exact ((hf.snoc rfl rfl).of_keeps hkeeps).resume hplain hres
      · cases ho
  | endQuery =>
      simp only [dispatch] at ho
      split at ho
      · obtain ⟨f', hf', rfl⟩ := Option.map_eq_some_iff.mp ho
        cases hres
        have hquery : Keeps f' { f' with inSimpleQuery := false } := ⟨rfl, fun _ _ h => h⟩
        exact ((hf.snoc rfl rfl).finishXactCommand hf').of_keeps hquery
      · cases ho
  | run a =>
      obtain ⟨f', hf', rfl⟩ := Option.map_eq_some_iff.mp ho
      cases hres
      by_cases ha : a = .portalEnd
      · subst ha
        exact hf.portalEnd hf'
      · obtain ⟨s', eff, hstep, hb, herr, hs, hpart⟩ := step_of_runStep hf'
        have hends : endsStatement (f, (bits, .run a)) = false := by
          rw [endsStatement]
          split <;> simp_all
        exact (hf.snoc rfl hends).of_step hstep hb ha (fun x hx => absurd hx (herr x)) hs hpart
          fun _ _ => kind_of_runStep hf'
  | error x =>
      simp only [dispatch] at ho
      split at ho <;> cases ho
      cases hx : f.sess.mustUndo x with
      | true => exact hf.fails hx hres
      | false => exact (hf.snoc rfl (hf.not_ends hx)).ereport hx hres

theorem follows_run {parse : Text → Option (List RawStmt)} {tr : List ((Key → Status) × Event N)}
    (run : Machine.Run (frontend N parse) Machine.Any {} tr f) :
    Follows ((frontend N parse).history {} tr) f := by
  induction run with
  | nil => exact follows_initial
  | snoc r _ hstep ih =>
      rw [r.history_snoc]
      exact ih.step hstep

/-- A call of `PortalRun` is made with the globals as they were when the message was read. -/
theorem keeps_of_call {parse : Text → Option (List RawStmt)} {ev : Event N} {name : Option N}
    {p : Portal} (h : f.dispatch parse bits ev = some (.portalRun g name p)) :
    Keeps f g ∧ g.portals name = some p := by
  cases ev with
  | message m fault =>
      simp only [dispatch, receive] at h
      split at h
      · split at h
        · cases h
        · by_cases hbind : ∃ portal stmt, m = .bind portal stmt
          · obtain ⟨portal, stmt, rfl⟩ := hbind
            simp only [handle, execBindMessage] at h
            split at h
            · cases h
            · obtain ⟨f', -, hout⟩ := Option.map_eq_some_iff.mp h
              split at hout
              · cases hout
              · split at hout <;> cases hout
          · by_cases hsync : m = .sync
            · subst hsync
              simp only [handle] at h
              split at h
              · cases h
              · obtain ⟨_, -, hout⟩ := Option.map_eq_some_iff.mp h
                cases hout
            · obtain ⟨hkeeps, hplain⟩ := keeps_handle (fun p s hm => hbind ⟨p, s, hm⟩) hsync h
              exact ⟨⟨hkeeps.globals, hkeeps.kind⟩, hplain⟩
      · cases h
  | nextStmt fault =>
      simp only [dispatch] at h
      split at h
      · exact keeps_nextStatement h
      · cases h
  | endQuery =>
      simp only [dispatch] at h
      split at h
      · obtain ⟨_, -, hout⟩ := Option.map_eq_some_iff.mp h
        cases hout
      · cases h
  | run a =>
      obtain ⟨_, -, hout⟩ := Option.map_eq_some_iff.mp h
      cases hout
  | error x =>
      simp only [dispatch] at h
      split at h <;> cases h

/-! ## A statement outside the migration -/

/-- In everything the session does from this call of `PortalRun` to the end of the
statement, no tuple is handed to `MigrateTuple` and no status bit is written. -/
def Untouched (parse : Text → Option (List RawStmt)) (f : Frontend N) (name : Option N)
    (p : Portal) : Prop :=
  ∀ bits₀ f₁, f.portalRun bits₀ name p = some f₁ →
    ∀ tr g, Machine.Run (frontend N parse) (fun _ i => i.2.InStatement) f₁ tr g →
      ∀ bits a s' eff, g.sess.step bits a = some (s', eff) →
        (∀ e, a ≠ .pass e) ∧ eff.onBits bits = bits

/-- What one step of the statement keeps. -/
theorem outside_step {parse : Text → Option (List RawStmt)} {i : (Key → Status) × Event N}
    (hi : i.2.InStatement) (h : (frontend N parse).step f i = some g) (hf : f.sess.Outside) :
    g.sess.Outside := by
  obtain ⟨bits, ev⟩ := i
  obtain ⟨o, ho, hres⟩ := Option.bind_eq_some_iff.mp h
  cases ev with
  | run a =>
      obtain ⟨g', hg, rfl⟩ := Option.map_eq_some_iff.mp ho
      cases hres
      obtain ⟨s', eff, hstep, hb, -, rfl, -⟩ := step_of_runStep hg
      exact (Session.move_of_step hstep).outside hb hf
  | error x =>
      simp only [dispatch] at ho
      split at ho <;> cases ho
      obtain ⟨⟨s', eff⟩, hstep, rfl⟩ := Option.map_eq_some_iff.mp hres
      exact (Session.move_of_step hstep).outside (fun _ => nofun) hf
  | message m fault => exact hi.elim
  | nextStmt fault => exact hi.elim
  | endQuery => exact hi.elim

theorem outside_portalRun {name : Option N} {p : Portal} (hflag : f.sess.migrateflag = false)
    (h : f.portalRun bits name p = some g) : g.sess.Outside := by
  unfold portalRun at h
  split at h
  · obtain ⟨r, hr, rfl⟩ := Option.map_eq_some_iff.mp h
    simp only [Session.step] at hr
    split at hr <;> cases hr
    exact ⟨hflag, .inr (.inl rfl)⟩
  · -- the portal cannot be run: there is nothing to undo
    obtain ⟨r, hr, rfl⟩ := Option.map_eq_some_iff.mp h
    have hundo : f.sess.mustUndo .execution = false := rfl
    simp only [Session.step, hundo] at hr
    split at hr <;> cases hr
    exact ⟨hflag, .inl rfl⟩

theorem untouched_of_flag {parse : Text → Option (List RawStmt)} {name : Option N} {p : Portal}
    (hflag : f.sess.migrateflag = false) : f.Untouched parse name p := by
  intro bits₀ f₁ hcall tr g run bits a s' eff hstep
  have hg : g.sess.Outside :=
    run.invariant (I := fun g => g.sess.Outside) (fun _ _ _ hi hs hI => outside_step hi hs hI)
      (outside_portalRun hflag hcall)
  obtain ⟨hpass, hbits⟩ := (Session.move_of_step hstep).untouched hg
  exact ⟨hpass, hbits bits⟩

end Handlers

/-! ## The mode and the portal -/

/-- The mode is the one the portal needs: on exactly for a migration statement, and
then on the bitmap of that migration. -/
def ModeOf (f : Frontend N) (p : Portal) : Prop :=
  (f.sess.migrateflag = true ↔ p.migration.isSome = true) ∧
    ∀ k, p.migration = some k →
      f.sess.bitmapNum = k ∧ f.partialBitmap = some (k * bitmapSize)

/-- Outside the clean-up, the mode is that of the portal iff the Bind that waits is. -/
theorem Follows.modeOf_iff {p : Portal} (hf : Follows past f)
    (hpc : f.sess.pc.cleaning = false) : f.ModeOf p ↔ waiting past = p.migration := by
  constructor
  · rintro ⟨hflag, hbitmap⟩
    rw [hf.flag hpc] at hflag
    cases hl : waiting past with
    | none =>
        cases hm : p.migration with
        | none => rfl
        | some k => simp [hl, hm] at hflag
    | some j =>
        cases hm : p.migration with
        | none => simp [hl, hm] at hflag
        | some k => rw [← (hf.bitmap j hl).1, (hbitmap k hm).1]
  · intro h
    refine ⟨by rw [hf.flag hpc, h], fun k hk => hf.bitmap k (h.trans hk)⟩

end Frontend

section

variable {N : Type} [DecidableEq N]

/-- Handlers run between statements. -/
theorem idle_of_call {parse : Text → Option (List RawStmt)} {bits : Key → Status}
    {f g : Frontend N} {ev : Event N} {name : Option N} {p : Portal}
    (h : f.dispatch parse bits ev = some (.portalRun g name p)) : f.sess.pc = .idle := by
  cases ev with
  | message m fault | nextStmt fault =>
      simp only [Frontend.dispatch] at h
      split at h
      · rename_i hidle
        exact hidle.1
      · cases h
  | endQuery =>
      simp only [Frontend.dispatch] at h
      split at h
      · rename_i hidle
        exact hidle.1
      · cases h
  | run a =>
      obtain ⟨_, -, hout⟩ := Option.map_eq_some_iff.mp h
      cases hout
  | error x =>
      simp only [Frontend.dispatch] at h
      split at h <;> cases h

/-- A check of the state and the portal at a call of `PortalRun` in a computed run. -/
theorem exists_call (parse : Text → Option (List RawStmt)) (bits : Key → Status)
    (tr : List ((Key → Status) × Event N)) (ev : Event N)
    {q : Frontend N → Option N → Portal → Bool}
    (h : ((frontend N parse).exec {} tr).any (fun f =>
      match f.dispatch parse bits ev with
      | some (.portalRun g name p) => q g name p
      | _ => false) = true) :
    ∃ f g name p, Machine.Run (frontend N parse) Machine.Any {} tr f ∧
      f.dispatch parse bits ev = some (.portalRun g name p) ∧ q g name p = true := by
  obtain ⟨f, run, hf⟩ := (frontend N parse).exists_run tr h
  split at hf
  · exact ⟨f, _, _, _, run, ‹_›, hf⟩
  · cases hf

open Frontend in
/-- Whenever `PortalRun` is called, in any sequence of messages, statements and errors.  For a
portal of migration `k`, which a Bind has made that recognised `k`: the mode is that of the
portal iff some Bind recognised `k`, and since then no statement has returned or failed with
clean-up and no Bind has recognised the other migration.  For any other portal: iff after every
Bind that recognised a migration a statement has returned or failed with clean-up; the
portal is then run without a tuple being held back or a status bit being written. -/
theorem mode_belongs_iff {parse : Text → Option (List RawStmt)}
    {tr : List ((Key → Status) × Event N)} {f g : Frontend N}
    (run : Machine.Run (frontend N parse) Machine.Any {} tr f) {bits : Key → Status}
    {ev : Event N} {name : Option N} {p : Portal}
    (hcall : f.dispatch parse bits ev = some (.portalRun g name p)) :
    (∀ k, p.migration = some k →
      (∃ x ∈ (frontend N parse).history {} tr, recognises x = some k ∧ x.2.2.BindsPortal name) ∧
      (g.ModeOf p ↔
        Latch.Holds recognises endsStatement ((frontend N parse).history {} tr) k)) ∧
    (p.migration = none →
      (g.ModeOf p ↔ Latch.Clear recognises endsStatement ((frontend N parse).history {} tr)) ∧
      (g.ModeOf p → g.Untouched parse name p)) := by
  obtain ⟨hkeeps, hp⟩ := keeps_of_call hcall
  have hf := follows_run run
  have hg := hf.of_keeps hkeeps
  have hclean : g.sess.pc.cleaning = false := by
    have hpc : g.sess.pc = f.sess.pc := congrArg (fun c => c.1.pc) hkeeps.globals
    rw [hpc, idle_of_call hcall]
    rfl
  constructor
  · intro k hk
    have hkind : g.kind name = some k := by
      rw [kind, hp]
      exact hk
    refine ⟨hg.bound name k hkind, ?_⟩
    rw [hg.modeOf_iff hclean, hk]
    exact Latch.latch_eq_some_iff
  · intro hk
    have hiff := hg.modeOf_iff (p := p) hclean
    rw [hk] at hiff
    refine ⟨hiff.trans Latch.latch_eq_none_iff, fun hmode => untouched_of_flag ?_⟩
    -- the flag is off because no Bind waits
    rw [hg.flag hclean, hiff.mp hmode]
    rfl

/-- A grammar for the runs below: every text is one statement, and all but the
migration statements return rows. -/
def oneStatement (text : Text) : Option (List RawStmt) :=
  some [if migrationOf text = none then .query else .command]

/-- A session that migrates into the second table and then reads the first: at both
calls of `PortalRun` the mode is that of the portal. -/
theorem mode_belongs_in_turn :
    (∃ tr f g name p, Machine.Run (frontend Unit oneStatement) Machine.Any {} tr f ∧
      f.dispatch oneStatement allClear (.message (.execute none) none) =
        some (.portalRun g name p) ∧ p.migration = some 1 ∧ g.ModeOf p) ∧
    ∃ tr f g name p, Machine.Run (frontend Unit oneStatement) Machine.Any {} tr f ∧
      f.dispatch oneStatement allClear (.nextStmt none) = some (.portalRun g name p) ∧
      p.migration = none ∧ g.Untouched oneStatement name p := by
  let insert : Text := " insert into customer_proj2 select 1".toList
  let bound : List ((Key → Status) × Event Unit) :=
    [(allClear, .message (.parse none insert) none), (allClear, .message (.bind none none) none)]
  let queried : List ((Key → Status) × Event Unit) :=
    [(allClear, .message (.execute none) none), (allClear, .run .portalEnd),
      (allClear, .run .next), (allClear, .run .next), (allClear, .run .next),
      (allClear, .message .sync none), (allClear, .message (.query "select 1".toList) none)]
  constructor
  · obtain ⟨f, g, name, p, run, hcall, hq⟩ :=
      exists_call oneStatement allClear bound (.message (.execute none) none)
        (q := fun _ _ p => decide (p.migration = some 1)) (by decide +kernel)
    have hp := of_decide_eq_true hq
    have hwaits : Frontend.waiting ((frontend Unit oneStatement).history {} bound) = some 1 := by
      decide +kernel
    exact ⟨_, f, g, name, p, run, hcall, hp,
      ((mode_belongs_iff run hcall).1 1 hp).2.mpr (Latch.latch_eq_some_iff.mp hwaits)⟩
  · obtain ⟨f, g, name, p, run, hcall, hq⟩ :=
      exists_call oneStatement allClear (bound ++ queried) (.nextStmt none)
        (q := fun _ _ p => decide (p.migration = none)) (by decide +kernel)
    have hp := of_decide_eq_true hq
    have hnone : Frontend.waiting
        ((frontend Unit oneStatement).history {} (bound ++ queried)) = none := by
      decide +kernel
    obtain ⟨hiff, huntouched⟩ := (mode_belongs_iff run hcall).2 hp
    exact ⟨_, f, g, name, p, run, hcall, hp,
      huntouched (hiff.mpr (Latch.latch_eq_none_iff.mp hnone))⟩

/-- The portals of an insert and of a query are bound, and the query is run first: it
is run in migration mode, and its scan hands tuple 7 to `MigrateTuple`. -/
theorem query_in_migration_mode :
    ∃ (tr : List ((Key → Status) × Event Bool)) (f g f₁ : Frontend Bool)
      (name : Option Bool) (p : Portal),
      Machine.Run (frontend Bool oneStatement) Machine.Any {} tr f ∧
        f.dispatch oneStatement allClear (.message (.execute (some true)) none) =
          some (.portalRun g name p) ∧
        p.boundFrom = some "select 1".toList ∧ p.migration = none ∧ ¬ g.ModeOf p ∧
        g.portalRun allClear name p = some f₁ ∧
        (f₁.sess.step allClear (.pass 7)).isSome = true := by
  let insert : Text := " insert into customer_proj1 select 1".toList
  obtain ⟨f, g, name, p, run, hcall, hq⟩ :=
    exists_call oneStatement allClear
      [(allClear, .message (.parse (some false) insert) none),
        (allClear, .message (.parse (some true) "select 1".toList) none),
        (allClear, .message (.bind (some false) (some false)) none),
        (allClear, .message (.bind (some true) (some true)) none)]
      (.message (.execute (some true)) none)
      (q := fun g name p => decide (p.boundFrom = some "select 1".toList ∧ p.migration = none ∧
        g.sess.migrateflag = true) &&
        (g.portalRun allClear name p).any fun f₁ : Frontend Bool =>
          (f₁.sess.step allClear (.pass 7)).isSome)
      (by decide +kernel)
  obtain ⟨hq, hpass⟩ := Bool.and_eq_true_iff.mp hq
  obtain ⟨htext, hp, hflag⟩ := of_decide_eq_true hq
  obtain ⟨f₁, hrun, hpass⟩ := (Option.any_eq_true _ _).mp hpass
  refine ⟨_, f, g, f₁, name, p, run, hcall, htext, hp, ?_, hrun, hpass⟩
  intro hmode
  have hsome := hmode.1.mp hflag
  rw [hp] at hsome
  cases hsome

end

end BullFrog
