/-
# `BullFrog.Protocol.Sequential` — the steps of the protocol and the sequential code

Two pieces of the code are modelled twice.  `MigrateTuple` is a function on the globals
of a process, for what a scan computes (`Globals.offer`), and a sequence of steps between
which other backends can move, for what holds under every interleaving (`Session.next`).
The wait loop of `post_query_tasks` walks over list cells (`waitLoop`) and, in the
protocol, over the eids they hold.  Here the two are compared:

    drain_alone         a drained scan is a run of the protocol in which one backend moves
    waitLoop_follows    under every interleaving, the protocol's wait loop is a course of
                        the loop over the cells
-/
import BullFrog.Executor.Filter
import BullFrog.Nodes.WaitLoop
import BullFrog.Protocol.System

namespace BullFrog

variable {B : Type} [DecidableEq B] {sys sys' : System B} {b : B}

/-! ## `MigrateTuple` -/

section MigrateTuple

variable {k : BitmapNum} {g : Globals} {R : Type}

/-- A session at `pc`, in a migration statement on bitmap `k`, with the globals `g`. -/
structure Session.Sees (s : Session) (k : BitmapNum) (pc : Pc) (g : Globals) : Prop where
  pc : s.pc = pc
  stmt : s.stmt = none
  bitmapNum : s.bitmapNum = k
  flag : s.migrateflag = true
  migrateflag : g.migrateflag = true
  list0 : s.inProgLocalList0.map UInt32.toInt32 = g.inProgLocalList0
  list1 : s.inProgLocalList1.map UInt32.toInt32 = g.inProgLocalList1
  count : s.tuplemigratecount = g.tuplemigratecount

theorem Session.Sees.goto {s : Session} {pc : Pc} (h : s.Sees k pc g) (pc' : Pc) :
    Session.Sees { s with pc := pc' } k pc' g :=
  ⟨rfl, h.stmt, h.bitmapNum, h.flag, h.migrateflag, h.list0, h.list1, h.count⟩

/-- What a process sees: its place and globals, and of shared memory, besides the bitmap,
the partition locks and what has been handed up. -/
structure View (B : Type) where
  pc : Pc
  g : Globals
  lwlock : Nat → Option B
  emitted : List Key

/-- Backend `b` of the system sees it. -/
structure SeenBy (sys : System B) (b : B) (k : BitmapNum) (v : View B) : Prop where
  sess : (sys.sess b).Sees k v.pc v.g
  bits : ∀ e, sys.bits (k, e) = statusOf v.g.partialBitmap e
  lwlock : sys.lwlock = v.lwlock
  emitted : sys.emitted = v.emitted

/-- Where a migration statement starts: the lists are empty and no lock is taken. -/
theorem seenBy_start (b : B) (k : BitmapNum) {bitmap : Bitmap} {bits : Key → Status}
    (hbits : ∀ e, bits (k, e) = statusOf bitmap e) :
    ∃ sys, (protocol B).Run Machine.Any (System.initial bits) (startStatement b k) sys ∧
      SeenBy sys b k ⟨.scan, ⟨true, bitmap, [], [], 0⟩, fun _ => none, []⟩ := by
  let bound : Session :=
    { migrateflag := true, bitmapNum := k, xact := TBlock.default.startTransactionCommand }
  let entered : Session :=
    { bound with pc := .scan, xact := bound.xact.startTransactionCommand }
  have hbind : (protocol B).step (System.initial bits) (b, .bind k) =
      some ((System.initial bits).after b bound .skip) := rfl
  have hexecute : (protocol B).step ((System.initial bits).after b bound .skip)
      (b, .execute none) =
        some (((System.initial bits).after b bound .skip).after b entered .skip) := by
    simp only [protocol, after_sess_self]
    rfl
  refine ⟨_, .snoc (.snoc .nil trivial hbind) trivial hexecute, ?_, hbits, rfl, rfl⟩
  rw [after_sess_self]
  exact ⟨rfl, rfl, rfl, rfl, rfl, rfl, rfl, rfl⟩

/-- Steps of backend `b` lead from one view to another, whatever the rest of the system. -/
def Leads (b : B) (k : BitmapNum) (v v' : View B) : Prop :=
  ∀ sys, SeenBy sys b k v →
    ∃ tr sys', (protocol B).Run Machine.Any sys tr sys' ∧ SeenBy sys' b k v'

variable {lwlock : Nat → Option B} {emitted : List Key} {e : Eid} {pc pc' : Pc}

theorem Leads.refl (v : View B) : Leads b k v v :=
  fun sys h => ⟨[], sys, .nil, h⟩

theorem Leads.trans {v v' v'' : View B} (h : Leads b k v v') (h' : Leads b k v' v'') :
    Leads b k v v'' := by
  intro sys hsys
  obtain ⟨tr, sys₁, hrun, hseen⟩ := h sys hsys
  obtain ⟨tr', sys', hrun', hseen'⟩ := h' sys₁ hseen
  exact ⟨tr ++ tr', sys', hrun.append hrun', hseen'⟩

/-- One step. -/
theorem leads_step {g' : Globals} (a : Action) (f : Session → Session) (eff : Effect)
    (hstep : ∀ s : Session, s.Sees k pc g → ∀ bits : Key → Status,
      (∀ e, bits (k, e) = statusOf g.partialBitmap e) → s.step bits a = some (f s, eff))
    (hen : eff.enabled lwlock = true)
    (hsess : ∀ s : Session, s.Sees k pc g → (f s).Sees k pc' g')
    (hbits : ∀ bits : Key → Status, (∀ e, bits (k, e) = statusOf g.partialBitmap e) →
      ∀ e, eff.onBits bits (k, e) = statusOf g'.partialBitmap e) :
    Leads b k ⟨pc, g, lwlock, emitted⟩
      ⟨pc', g', eff.onLocks b lwlock, eff.onEmitted emitted⟩ := by
  intro sys h
  have hrun : (protocol B).step sys (b, a) = some (sys.after b (f (sys.sess b)) eff) := by
    have hen : eff.enabled sys.lwlock = true := by rw [h.lwlock, hen]
    simp only [protocol, hstep _ h.sess _ h.bits, hen, if_true]
  refine ⟨[(b, a)], _, .snoc .nil trivial hrun, ?_, hbits _ h.bits, ?_, ?_⟩
  · rw [after_sess_self]
    exact hsess _ h.sess
  · rw [after_lwlock, h.lwlock]
  · rw [after_emitted, h.emitted]

/-- A step of the code the backend is in. -/
theorem leads_next {g' : Globals} (f : Session → Session) (eff : Effect)
    (hnext : ∀ s : Session, s.Sees k pc g →
      s.next (statusOf g.partialBitmap) = some (f s, eff))
    (hen : eff.enabled lwlock = true)
    (hsess : ∀ s : Session, s.Sees k pc g → (f s).Sees k pc' g')
    (hbits : ∀ bits : Key → Status, (∀ e, bits (k, e) = statusOf g.partialBitmap e) →
      ∀ e, eff.onBits bits (k, e) = statusOf g'.partialBitmap e) :
    Leads b k ⟨pc, g, lwlock, emitted⟩
      ⟨pc', g', eff.onLocks b lwlock, eff.onEmitted emitted⟩ := by
  refine leads_step .next f eff ?_ hen hsess hbits
  intro s hs bits hlook
  have hlook : (fun e => bits (s.bitmapNum, e)) = statusOf g.partialBitmap := by
    funext e
    rw [hs.bitmapNum, hlook e]
  rw [Session.step, hlook, hnext s hs]

/-- A step that only moves on. -/
theorem leads_goto (pc' : Pc)
    (hnext : ∀ s : Session, s.pc = pc →
      s.next (statusOf g.partialBitmap) = some ({ s with pc := pc' }, .skip)) :
    Leads b k ⟨pc, g, lwlock, emitted⟩ ⟨pc', g, lwlock, emitted⟩ :=
  leads_next (fun s => { s with pc := pc' }) .skip (fun s hs => hnext s hs.pc) rfl
    (fun _ hs => hs.goto pc') fun _ hbits => hbits

theorem leads_pass (e : Eid) :
    Leads b k ⟨.scan, g, lwlock, emitted⟩ ⟨.readMigrate e, g, lwlock, emitted⟩ := by
  refine leads_step (.pass e)
    (fun s => { s with pc := .readMigrate e, passed := s.passed ++ [e] }) .skip ?_ rfl ?_
    fun _ hbits => hbits
  · intro s hs bits _
    simp [Session.step, hs.pc, hs.flag, hs.stmt]
  · intro s hs
    exact ⟨rfl, hs.stmt, hs.bitmapNum, hs.flag, hs.migrateflag, hs.list0, hs.list1, hs.count⟩

/-- The tuple is migrated: one read. -/
theorem leads_of_migrated (hm : (statusOf g.partialBitmap e).migrate = true) :
    Leads b k ⟨.readMigrate e, g, lwlock, emitted⟩ ⟨.scan, g, lwlock, emitted⟩ :=
  leads_goto .scan fun s hpc => by simp [Session.next, hpc, hm]

/-- The tuple is locked: two reads and an append. -/
theorem leads_of_locked (hm : (statusOf g.partialBitmap e).migrate = false)
    (hl : (statusOf g.partialBitmap e).lock = true) :
    Leads b k ⟨.readMigrate e, g, lwlock, emitted⟩
      ⟨.scan, { g with inProgLocalList1 := g.inProgLocalList1 ++ [e.toInt32] }, lwlock,
        emitted⟩ := by
  have hread : Leads b k ⟨.readMigrate e, g, lwlock, emitted⟩ ⟨.readLock e, g, lwlock, emitted⟩ :=
    leads_goto (.readLock e) fun s hpc => by simp [Session.next, hpc, hm]
  have hseen : Leads b k ⟨.readLock e, g, lwlock, emitted⟩ ⟨.appendBusy e, g, lwlock, emitted⟩ :=
    leads_goto (.appendBusy e) fun s hpc => by simp [Session.next, hpc, hl]
  have happend : Leads b k ⟨.appendBusy e, g, lwlock, emitted⟩ ⟨.scan,
      { g with inProgLocalList1 := g.inProgLocalList1 ++ [e.toInt32] }, lwlock, emitted⟩ := by
    refine leads_next
      (fun s => { s with pc := .scan, inProgLocalList1 := s.inProgLocalList1 ++ [e] }) .skip
      (fun s hs => by simp [Session.next, hs.pc]) rfl ?_ fun _ hbits => hbits
    intro s hs
    exact ⟨rfl, hs.stmt, hs.bitmapNum, hs.flag, hs.migrateflag, hs.list0, by simp [hs.list1],
      hs.count⟩
  exact (hread.trans hseen).trans happend

/-- The tuple is free: up to the store, with the partition lock taken. -/
theorem leads_to_setLock (hs : statusOf g.partialBitmap e = ⟨false, false⟩)
    (hfree : lwlock (migrateBitmapPartitionLock e k) = none) :
    Leads b k ⟨.readMigrate e, g, lwlock, emitted⟩ ⟨.setLock e, g,
      Function.update lwlock (migrateBitmapPartitionLock e k) (some b), emitted⟩ := by
  have hread : Leads b k ⟨.readMigrate e, g, lwlock, emitted⟩ ⟨.readLock e, g, lwlock, emitted⟩ :=
    leads_goto (.readLock e) fun s hpc => by simp [Session.next, hpc, hs]
  have hfound : Leads b k ⟨.readLock e, g, lwlock, emitted⟩ ⟨.acquire e, g, lwlock, emitted⟩ :=
    leads_goto (.acquire e) fun s hpc => by simp [Session.next, hpc, hs]
  have hacquire : Leads b k ⟨.acquire e, g, lwlock, emitted⟩ ⟨.recheckMigrate e, g,
      Function.update lwlock (migrateBitmapPartitionLock e k) (some b), emitted⟩ :=
    leads_next (fun s => { s with pc := .recheckMigrate e }) (.acquire k e)
      (fun s hs => by simp [Session.next, hs.pc, hs.bitmapNum])
      (by simp [Effect.enabled, hfree]) (fun _ hs => hs.goto _) fun _ hbits => hbits
  generalize Function.update lwlock (migrateBitmapPartitionLock e k) (some b) = taken at hacquire ⊢
  have hrecheck : Leads b k ⟨.recheckMigrate e, g, taken, emitted⟩
      ⟨.recheckLock e, g, taken, emitted⟩ :=
    leads_goto (.recheckLock e) fun s hpc => by simp [Session.next, hpc, hs]
  have hagain : Leads b k ⟨.recheckLock e, g, taken, emitted⟩ ⟨.setLock e, g, taken, emitted⟩ :=
    leads_goto (.setLock e) fun s hpc => by simp [Session.next, hpc, hs]
  exact (hread.trans hfound).trans (hacquire.trans (hrecheck.trans hagain))

/-- It is claimed and handed up, and its row is inserted. -/
theorem leads_from_setLock :
    Leads b k ⟨.setLock e, g, lwlock, emitted⟩ ⟨.scan,
      { g with
        partialBitmap := setlockbit g.partialBitmap e
        inProgLocalList0 := g.inProgLocalList0 ++ [e.toInt32]
        tuplemigratecount := g.tuplemigratecount + 1 },
      Function.update lwlock (migrateBitmapPartitionLock e k) none, emitted ++ [(k, e)]⟩ := by
  have hset : Leads b k ⟨.setLock e, g, lwlock, emitted⟩ ⟨.releaseClaimed e,
      { g with partialBitmap := setlockbit g.partialBitmap e }, lwlock, emitted⟩ := by
    refine leads_next
      (fun s => { s with pc := .releaseClaimed e, held := s.held ++ [(k, e)] }) (.setLock k e)
      (fun s hs => by simp [Session.next, hs.pc, hs.bitmapNum]) rfl ?_ ?_
    · intro s hs
      exact ⟨rfl, hs.stmt, hs.bitmapNum, hs.flag, hs.migrateflag, hs.list0, hs.list1, hs.count⟩
    · intro bits hbits e'
      rw [statusOf_setlockbit, ← hbits e]
      by_cases he : e' = e
      · simp [he, Effect.onBits]
      · simp [he, Effect.onBits, hbits]
  let g₁ : Globals := { g with partialBitmap := setlockbit g.partialBitmap e }
  let g₂ : Globals :=
    { g₁ with
      inProgLocalList0 := g.inProgLocalList0 ++ [e.toInt32]
      tuplemigratecount := g.tuplemigratecount + 1 }
  let free := Function.update lwlock (migrateBitmapPartitionLock e k) none
  have hrelease : Leads b k ⟨.releaseClaimed e, g₁, lwlock, emitted⟩
      ⟨.appendClaimed e, g₁, free, emitted⟩ :=
    leads_next (fun s => { s with pc := .appendClaimed e }) (.release k e)
      (fun s hs => by simp [Session.next, hs.pc, hs.bitmapNum]) rfl (fun _ hs => hs.goto _)
      fun _ hbits => hbits
  have happend : Leads b k ⟨.appendClaimed e, g₁, free, emitted⟩
      ⟨.insertRow e, g₂, free, emitted ++ [(k, e)]⟩ := by
    refine leads_next
      (fun s => { s with
        pc := .insertRow e, inProgLocalList0 := s.inProgLocalList0 ++ [e],
        tuplemigratecount := s.tuplemigratecount + 1 }) (.emit k e)
      (fun s hs => by simp [Session.next, hs.pc, hs.bitmapNum]) rfl ?_ fun _ hbits => hbits
    intro s hs
    exact ⟨rfl, hs.stmt, hs.bitmapNum, hs.flag, hs.migrateflag, by simp [hs.list0, g₂, g₁],
      hs.list1, by simp [hs.count, g₂, g₁]⟩
  have hinsert : Leads b k ⟨.insertRow e, g₂, free, emitted ++ [(k, e)]⟩
      ⟨.scan, g₂, free, emitted ++ [(k, e)]⟩ := by
    refine leads_next (fun s => { s with pc := .scan, rows := s.rows ++ [(k, e)] }) .skip
      (fun s hs => by simp [Session.next, hs.pc, hs.bitmapNum]) rfl ?_ fun _ hbits => hbits
    intro s hs
    exact ⟨rfl, hs.stmt, hs.bitmapNum, hs.flag, hs.migrateflag, hs.list0, hs.list1, hs.count⟩
  exact (hset.trans hrelease).trans (happend.trans hinsert)

/-- One call: the steps of `MigrateTuple` lead where the function says, and the row is
handed up exactly if the answer is true. -/
theorem leads_offer (hflag : g.migrateflag = true) (t : HeapTuple R) (hlen : t.tLen ≠ 0)
    (hfree : ∀ e, lwlock (migrateBitmapPartitionLock e k) = none) :
    Leads b k ⟨.scan, g, lwlock, emitted⟩ ⟨.scan, (g.offer t).2, lwlock,
      emitted ++ if (g.offer t).1 then [(k, t.tSelf.eid)] else []⟩ := by
  refine (leads_pass t.tSelf.eid).trans ?_
  rcases Globals.offer_cases (t := t) hflag with
    ⟨hzero, _⟩ | ⟨_, hm, ho⟩ | ⟨_, hm, hl, ho⟩ | ⟨_, hs, ho⟩
  · exact absurd hzero hlen
  · rw [ho]
    simpa using leads_of_migrated hm
  · rw [ho]
    simpa using leads_of_locked hm hl
  · rw [ho]
    have hclear : Leads b k ⟨.readMigrate t.tSelf.eid, g, lwlock, emitted⟩ _ :=
      (leads_to_setLock hs (hfree t.tSelf.eid)).trans leads_from_setLock
    -- the lock is free again
    rw [Function.update_idem, ← hfree t.tSelf.eid, Function.update_eq_self] at hclear
    exact hclear

/-- A whole scan: backend `b` passes the tuples `q` one after the other, and nobody else
moves. -/
theorem leads_offers (hflag : g.migrateflag = true) (q : List (HeapTuple R))
    (hlen : ∀ t ∈ q, t.tLen ≠ 0) (hfree : ∀ e, lwlock (migrateBitmapPartitionLock e k) = none) :
    Leads b k ⟨.scan, g, lwlock, emitted⟩ ⟨.scan, g.after q, lwlock, emitted ++
      (claimedFrom (statusOf g.partialBitmap) [] q).map fun t => (k, t.tSelf.eid)⟩ := by
  induction q using List.reverseRecOn with
  | nil =>
      rw [Globals.after_nil]
      simpa [claimedFrom, withBefore] using Leads.refl _
  | append_singleton q t ih =>
      refine (ih fun u hu => hlen u (List.mem_append_left _ hu)).trans ?_
      have hlast : t.tLen ≠ 0 := hlen t (by simp)
      have hflag' : (g.after q).migrateflag = true := hflag
      have hcall : Leads b k ⟨.scan, g.after q, lwlock, emitted ++
          (claimedFrom (statusOf g.partialBitmap) [] q).map fun t => (k, t.tSelf.eid)⟩ _ :=
        leads_offer hflag' t hlast hfree
      rw [Globals.offer_after hflag q hlast] at hcall
      rw [claimedFrom_concat]
      cases hfirst : firstClear (statusOf g.partialBitmap) (q, t) <;>
        simpa [hfirst] using hcall

/-- What draining a node returns and leaves behind is what the protocol hands up and leaves
behind when one backend makes all the steps of the scan. -/
theorem drain_alone {P : Type} {node : ScanNode R P}
    (hnode : node.qual.isSome ∨ node.projInfo.isSome) (hflag : g.migrateflag = true)
    (stream : List (HeapTuple R)) (hlen : ∀ t ∈ stream, t.tLen ≠ 0)
    (hfree : ∀ e, lwlock (migrateBitmapPartitionLock e k) = none) :
    ∃ returned g', node.drain g (stream.map .heap) = .ok (node.slots returned, g') ∧
      Leads b k ⟨.scan, g, lwlock, emitted⟩
        ⟨.scan, g', lwlock, emitted ++ returned.map fun t => (k, t.tSelf.eid)⟩ := by
  have hpass : node.sweep (g.after []) stream = _ :=
    ScanNode.sweep_after hflag stream hlen []
  rw [Globals.after_nil, List.nil_append] at hpass
  refine ⟨_, _, ?_, leads_offers hflag (node.qualifying stream)
    (fun t ht => hlen t (List.mem_of_mem_filter ht)) hfree⟩
  rw [ScanNode.drain_eq_sweep hnode, hpass]

/-- In particular for the first statement of a system. -/
theorem drain_first_statement {P : Type} {node : ScanNode R P}
    (hnode : node.qual.isSome ∨ node.projInfo.isSome) (b : B) (k : BitmapNum) {bitmap : Bitmap}
    {bits : Key → Status} (hbits : ∀ e, bits (k, e) = statusOf bitmap e)
    (stream : List (HeapTuple R)) (hlen : ∀ t ∈ stream, t.tLen ≠ 0) :
    ∃ returned g' tr sys',
      node.drain ⟨true, bitmap, [], [], 0⟩ (stream.map .heap) = .ok (node.slots returned, g') ∧
      (protocol B).Run Machine.Any (System.initial bits) (startStatement b k ++ tr) sys' ∧
      SeenBy sys' b k
        ⟨.scan, g', fun _ => none, returned.map fun t => (k, t.tSelf.eid)⟩ := by
  obtain ⟨sys, hstart, hseen⟩ := seenBy_start b k hbits
  obtain ⟨returned, g', hdrain, hleads⟩ : ∃ returned g',
      node.drain ⟨true, bitmap, [], [], 0⟩ (stream.map .heap) = .ok (node.slots returned, g') ∧
      Leads b k ⟨.scan, ⟨true, bitmap, [], [], 0⟩, fun _ => none, []⟩
        ⟨.scan, g', fun _ => none, [] ++ returned.map fun t => (k, t.tSelf.eid)⟩ :=
    drain_alone hnode rfl stream hlen fun _ => rfl
  obtain ⟨tr, sys', hrun, hseen'⟩ := hleads sys hseen
  exact ⟨returned, g', tr, sys', hdrain, hstart.append hrun, hseen'⟩

end MigrateTuple

/-! ## The wait loop -/

/-- The eids that cells hold, as `getmigratebit` is called with them. -/
def eids (cs : List (Addr × Int32)) : List Eid := cs.map fun c => c.2.toUInt32

/-- Where the wait loop of a backend is, on the cells of its list. -/
def Session.SweepsAt (s : Session) : Sweep → Prop
  | .head cells => s.pc = .setMigrate [] ∧ s.inProgLocalList1 = eids cells
  | .inside kept rest =>
      s.pc = .sweep (eids kept) (eids rest) ∧ s.inProgLocalList1 = eids (kept ++ rest)
  | .done => s.pc = .freeLists

/-- The backend is in its wait loop. -/
def Session.waiting (s : Session) : Prop :=
  s.pc = .setMigrate [] ∨ ∃ kept rest, s.pc = .sweep kept rest

/-- From the head the next round begins, or the loop is left. -/
theorem enter_loop {s : Session} {cells : List (Addr × Int32)}
    (hlist : s.inProgLocalList1 = eids cells) :
    ∃ pos, sweeps.step (.head cells) .test = some pos ∧
      Session.SweepsAt { s with
        pc := if s.inProgLocalList1 = [] then .freeLists else .sweep [] s.inProgLocalList1 }
        pos := by
  cases cells with
  | nil =>
      refine ⟨.done, rfl, ?_⟩
      simp [Session.SweepsAt, hlist, eids]
  | cons c cells =>
      refine ⟨.inside [] (c :: cells), rfl, ?_⟩
      simp [Session.SweepsAt, hlist, eids]

/-- One step of a waiting backend is a step of the loop, or the end of a sweep and the test
behind it. -/
theorem Session.SweepsAt.next {s s' : Session} {eff : Effect} {pos : Sweep}
    {look : Eid → Status} (h : s.SweepsAt pos) (hwait : s.waiting)
    (hnext : s.next look = some (s', eff)) :
    ∃ tr pos', sweeps.Run Machine.Any pos tr pos' ∧ s'.SweepsAt pos' := by
  cases pos with
  | head cells =>
      obtain ⟨hpc, hlist⟩ := h
      obtain ⟨pos, hstep, hat⟩ := enter_loop hlist
      simp only [Session.next, hpc] at hnext
      cases hnext
      exact ⟨[.test], pos, .snoc .nil trivial hstep, hat⟩
  | inside kept rest =>
      obtain ⟨hpc, hlist⟩ := h
      cases rest with
      | nil =>
          rw [List.append_nil] at hlist
          obtain ⟨pos, hstep, hat⟩ := enter_loop hlist
          simp only [Session.next, hpc, eids, List.map_nil] at hnext
          cases hnext
          exact ⟨[.sweepEnd, .test], pos, .snoc (.snoc .nil trivial rfl) trivial hstep, hat⟩
      | cons c rest =>
          refine ⟨[.read c.1 c.2 (look c.2.toUInt32).migrate], _,
            .snoc .nil trivial (sweeps_read kept rest c _), ?_⟩
          simp only [Session.next, hpc, eids, List.map_cons] at hnext
          cases hbit : (look c.2.toUInt32).migrate <;> simp only [hbit] at hnext <;> cases hnext
          · exact ⟨by simp [eids], by simp [hlist]⟩
          · exact ⟨rfl, by simp [eids]⟩
  | done =>
      have hpc : s.pc = .freeLists := h
      simp [Session.waiting, hpc] at hwait

/-- While it waits, a backend makes no other step. -/
theorem Session.waiting.step_eq {s : Session} (h : s.waiting) {bits : Key → Status} {a : Action}
    {s' : Session} {eff : Effect} (hstep : s.step bits a = some (s', eff)) :
    s.next (fun e => bits (s.bitmapNum, e)) = some (s', eff) := by
  cases a with
  | next => exact hstep
  | _ => rcases h with hpc | ⟨_, _, hpc⟩ <;> simp [Session.step, Session.canFail, hpc] at hstep

/-- Whole runs, any backends moving: as long as `b` waits, its steps are a course of
the loop on the sequence. -/
theorem sweeps_of_run {cs : List (Addr × Int32)} {tr : List (B × Action)}
    (hat : (sys.sess b).SweepsAt (.head cs))
    (hrun : (protocol B).Run (fun sys _ => (sys.sess b).waiting) sys tr sys') :
    ∃ course pos, sweeps.Run Machine.Any (.head cs) course pos ∧ (sys'.sess b).SweepsAt pos := by
  refine hrun.invariant (I := fun sys => ∃ course pos,
    sweeps.Run Machine.Any (.head cs) course pos ∧ (sys.sess b).SweepsAt pos) ?_ ⟨[], _, .nil, hat⟩
  rintro sys ⟨b', a⟩ sys' hwait hstep ⟨course, pos, hcourse, hat⟩
  simp only [protocol] at hstep
  split at hstep
  · cases hstep
  rename_i s' eff hs
  split at hstep
  · cases hstep
    by_cases hb : b = b'
    · subst hb
      obtain ⟨course', pos', hcourse', hat'⟩ := hat.next hwait (hwait.step_eq hs)
      refine ⟨course ++ course', pos', hcourse.append hcourse', ?_⟩
      rw [after_sess_self]
      exact hat'
    · refine ⟨course, pos, hcourse, ?_⟩
      rw [after_sess_ne hb]
      exact hat
  · cases hstep

/-- Under every interleaving, the wait loop of a backend is a course of the loop over the
cells of its list: that loop reaches, without a fault, the place the backend is at. -/
theorem waitLoop_follows {heap : Heap} {list : Option Addr} {cs : List (Addr × Int32)}
    {tr : List (B × Action)} (hlist : Holds .malloc heap list cs)
    (hat : (sys.sess b).SweepsAt (.head cs))
    (hrun : (protocol B).Run (fun sys _ => (sys.sess b).waiting) sys tr sys') :
    ∃ s₀ course s pos, WaitState.start heap list = .ok s₀ ∧
      waitLoop.Run Machine.Any (.ok s₀) course (.ok s) ∧ s.Follows pos ∧
      (sys'.sess b).SweepsAt pos := by
  obtain ⟨s₀, hstart, hf₀⟩ := start_follows hlist
  obtain ⟨course, pos, hcourse, hat'⟩ := sweeps_of_run hat hrun
  obtain ⟨s, hloop, hf⟩ := hf₀.exists_run hcourse
  exact ⟨s₀, course, s, pos, hstart, hloop, hf, hat'⟩

end BullFrog
