/-
# `BullFrog.Nodes.WaitLoop` — the wait loop of `post_query_tasks`, pointer by pointer

    int volatile size = list_length(InProgLocalList1);
    while (size > 0)
        prev = NULL;
        for (cell = list_head(InProgLocalList1); cell; cell = next)
            next = lnext(cell);
            if (getmigratebit(PartialBitmap, lfirst_int(cell)))
                size--;
                InProgLocalList1 = pg_list_delete_cell(InProgLocalList1, cell, prev);
            else
                prev = cell;

The loop deletes from the list it walks over, and counts with a `size` of its own.  A
read of a migrate bit is a step whose label says which cell was examined, which eid it
holds and what the bit was, so a list of labels is a course of the loop with the answers
of the other backends.

    sweeps              the same loop on a sequence of occurrences, without pointers
    Follows.step        the pointers make the steps of the sequence, without a fault
    cells_eq_unread     what is left are the occurrences whose own read has not returned 1
    gone_after_sweep    a bit read as 1 when a sweep starts is gone when it ends

An occurrence of an eid is a cell.  Two cells with the same eid are read at different
times, so a bit that is set between the two reads leaves the first cell in the list for
one more sweep.
-/
import BullFrog.Nodes.Calls

namespace BullFrog

/-! ## The loop -/

/-- Where the loop is: at the test of `while`, at the test of `for`, or behind it. -/
inductive WaitPc where
  | head
  | cell (prev cell : Option Addr)
  | done
  deriving DecidableEq, Repr

structure WaitState where
  heap : Heap
  /-- `InProgLocalList1` -/
  list : Option Addr
  size : Int
  pc : WaitPc

inductive WaitEvent where
  /-- `while (size > 0)`, and what leads to the first `cell` -/
  | test
  /-- one round of the inner loop -/
  | read (cell : Addr) (eid : Int32) (bit : Bool)
  /-- `cell` is null -/
  | sweepEnd
  deriving DecidableEq, Repr

namespace WaitState

/-- `size = list_length(InProgLocalList1)`. -/
def start (heap : Heap) (list : Option Addr) : Except MemoryFault WaitState := do
  return ⟨heap, list, ← listLength heap list, .head⟩

/-- The head of a round: `next` and the eid whose bit is read. -/
def look (s : WaitState) (cell : Addr) : Except MemoryFault (Option Addr × Int32) := do
  let next ← lnext s.heap (some cell)
  let eid ← lfirstInt s.heap (some cell)
  return (next, eid)

/-- The body of a round, after the read. -/
def round (s : WaitState) (prev : Option Addr) (cell : Addr) (next : Option Addr) (bit : Bool) :
    Except MemoryFault WaitState :=
  if bit then do
    let (heap, list) ← pgListDeleteCell s.heap s.list (some cell) prev
    return ⟨heap, list, s.size - 1, .cell prev next⟩
  else return { s with pc := .cell (some cell) next }

end WaitState

def waitLoop : Machine (Except MemoryFault WaitState) WaitEvent where
  step
    | .error _, _ => none
    | .ok s, .test =>
        match s.pc with
        | .head =>
            if 0 < s.size then
              some ((listHead s.heap s.list).map fun cell => { s with pc := .cell none cell })
            else some (.ok { s with pc := .done })
        | .cell _ _ => none
        | .done => none
    | .ok s, .read cell eid bit =>
        match s.pc with
        | .head => none
        | .cell _ none => none
        | .cell prev (some a) =>
            match s.look a with
            | .error f => some (.error f)
            | .ok (next, e) =>
                if cell = a ∧ eid = e then some (s.round prev a next bit) else none
        | .done => none
    | .ok s, .sweepEnd =>
        match s.pc with
        | .head => none
        | .cell _ none => some (.ok { s with pc := .head })
        | .cell _ (some _) => none
        | .done => none

/-! ## The same loop on a sequence

What the loop is for: it filters the occurrences, a cell and its eid each, sweep by
sweep.  Inside a sweep `kept` has been passed over and `rest` is still to be examined. -/

inductive Sweep where
  | head (cells : List (Addr × Int32))
  | inside (kept rest : List (Addr × Int32))
  | done
  deriving DecidableEq, Repr

/-- The occurrences still waited for. -/
def Sweep.cells : Sweep → List (Addr × Int32)
  | .head cells => cells
  | .inside kept rest => kept ++ rest
  | .done => []

def sweeps : Machine Sweep WaitEvent where
  step
    | .head cells, .test => some (if cells.isEmpty then .done else .inside [] cells)
    | .head _, .read _ _ _ => none
    | .head _, .sweepEnd => none
    | .inside _ _, .test => none
    | .inside kept rest, .read cell eid bit =>
        match rest with
        | [] => none
        | c :: rest =>
            if cell = c.1 ∧ eid = c.2 then
              some (if bit then .inside kept rest else .inside (kept ++ [c]) rest)
            else none
    | .inside kept rest, .sweepEnd => if rest.isEmpty then some (.head kept) else none
    | .done, .test => none
    | .done, .read _ _ _ => none
    | .done, .sweepEnd => none

/-- The steps, one constructor each. -/
inductive Sweep.Step : Sweep → WaitEvent → Sweep → Prop
  | exit : Step (.head []) .test .done
  | enter (cells : List (Addr × Int32)) : Step (.head cells) .test (.inside [] cells)
  | drop (kept rest : List (Addr × Int32)) (c : Addr × Int32) :
      Step (.inside kept (c :: rest)) (.read c.1 c.2 true) (.inside kept rest)
  | keep (kept rest : List (Addr × Int32)) (c : Addr × Int32) :
      Step (.inside kept (c :: rest)) (.read c.1 c.2 false) (.inside (kept ++ [c]) rest)
  | leave (kept : List (Addr × Int32)) : Step (.inside kept []) .sweepEnd (.head kept)

theorem Sweep.Step.of_step {pos pos' : Sweep} {ev : WaitEvent}
    (hstep : sweeps.step pos ev = some pos') : Sweep.Step pos ev pos' := by
  cases pos with
  | head cells =>
      cases ev with
      | test =>
          cases cells <;> cases hstep
          · exact .exit
          · exact .enter _
      | read cell eid bit => cases hstep
      | sweepEnd => cases hstep
  | inside kept rest =>
      cases ev with
      | test => cases hstep
      | read cell eid bit =>
          cases rest with
          | nil => cases hstep
          | cons c rest =>
              simp only [sweeps, Option.ite_none_right_eq_some] at hstep
              obtain ⟨⟨rfl, rfl⟩, hpos⟩ := hstep
              cases bit <;> cases hpos
              · exact .keep kept rest c
              · exact .drop kept rest c
      | sweepEnd =>
          cases rest <;> cases hstep
          exact .leave kept
  | done => cases ev <;> cases hstep

/-! ## The pointers follow the sequence -/

/-- Where `prev` and `cell` point. -/
def Sweep.pc : Sweep → WaitPc
  | .head _ => .head
  | .inside kept rest => .cell (kept.map Prod.fst).getLast? (rest.map Prod.fst).head?
  | .done => .done

/-- `InProgLocalList1` stands for the occurrences still waited for, `size` is their number,
and `prev` and `cell` are neighbours among them. -/
structure WaitState.Follows (s : WaitState) (pos : Sweep) : Prop where
  holds : Holds .malloc s.heap s.list pos.cells
  size : s.size = pos.cells.length
  pc : s.pc = pos.pc

theorem Holds.listLength_eq {m : Allocator} {h : Heap} {p : Option Addr}
    {cs : List (Addr × Int32)} (hh : Holds m h p cs) : listLength h p = .ok cs.length := by
  cases hh with
  | nil => rfl
  | list _ hl hh => rw [BullFrog.listLength_eq hl, hh.length]

/-- A cell of the list is read without a fault. -/
theorem Holds.look_eq {s : WaitState} {m : Allocator} {c : Addr × Int32}
    {kept rest : List (Addr × Int32)} (hh : Holds m s.heap s.list (kept ++ c :: rest)) :
    s.look c.1 = .ok ((rest.map Prod.fst).head?, c.2) := by
  generalize hcs : kept ++ c :: rest = cs at hh
  generalize s.list = p at hh
  cases hh with
  | nil => simp at hcs
  | list _ _ hh =>
      subst hcs
      have hseg := hh.chain
      rw [List.map_append, List.map_cons] at hseg
      obtain ⟨next, hcell⟩ := hh.data c (by simp)
      have hfirst : lfirstInt s.heap (some c.1) = .ok c.2 := by
        simp [lfirstInt, Heap.cell, hcell, ok_bind]
      rw [WaitState.look, lnext_eq hseg.link_eq, ok_bind, hfirst, ok_bind, pure_eq_ok]

/-- One round. -/
theorem WaitState.Follows.round {s : WaitState} {c : Addr × Int32}
    {kept rest : List (Addr × Int32)} (hf : s.Follows (.inside kept (c :: rest))) (bit : Bool) :
    ∃ s' : WaitState,
      s.round (kept.map Prod.fst).getLast? c.1 (rest.map Prod.fst).head? bit = .ok s' ∧
      s'.Follows (if bit then .inside kept rest else .inside (kept ++ [c]) rest) := by
  have hholds : Holds .malloc s.heap s.list (kept ++ c :: rest) := hf.holds
  have hsize := hf.size
  cases bit with
  | true =>
      obtain ⟨h', p', hrun, hholds', _⟩ := hholds.delete
      refine ⟨⟨h', p', s.size - 1, _⟩, ?_, hholds', ?_, rfl⟩
      · rw [WaitState.round, if_pos rfl, pgListDeleteCell, hrun, ok_bind]
        rfl
      · simp [Sweep.cells] at hsize ⊢
        omega
  | false =>
      refine ⟨_, rfl, ?_, ?_, ?_⟩
      · simpa [Sweep.cells] using hholds
      · simpa [Sweep.cells] using hsize
      · simp [Sweep.pc]

/-- One step: the loop and the sequence can make the same steps, and the loop makes them
without a fault. -/
theorem WaitState.Follows.step {s : WaitState} {pos : Sweep} (hf : s.Follows pos)
    (ev : WaitEvent) :
    (waitLoop.step (.ok s) ev = none ∧ sweeps.step pos ev = none) ∨
    ∃ s' pos', waitLoop.step (.ok s) ev = some (.ok s') ∧ sweeps.step pos ev = some pos' ∧
      s'.Follows pos' := by
  have hpc := hf.pc
  cases pos with
  | head cells =>
      cases ev with
      | test =>
          obtain ⟨first, hhead, hseg⟩ := hf.holds.listHead_eq
          have hsize : s.size = cells.length := hf.size
          cases cells with
          | nil =>
              refine .inr ⟨{ s with pc := .done }, .done, ?_, rfl, hf.holds, hf.size, rfl⟩
              simp [waitLoop, hpc, Sweep.pc, hsize]
          | cons c cells =>
              refine .inr ⟨{ s with pc := .cell none first }, .inside [] (c :: cells), ?_, rfl,
                hf.holds, hf.size, ?_⟩
              · have hpos : 0 < s.size := by
                  rw [hsize, List.length_cons]
                  omega
                simp [waitLoop, hpc, Sweep.pc, hpos, hhead, Except.map]
              · rw [hseg.start_eq]
                rfl
      | read cell eid bit => exact .inl ⟨by simp [waitLoop, hpc, Sweep.pc], rfl⟩
      | sweepEnd => exact .inl ⟨by simp [waitLoop, hpc, Sweep.pc], rfl⟩
  | inside kept rest =>
      cases ev with
      | test => exact .inl ⟨by simp [waitLoop, hpc, Sweep.pc], rfl⟩
      | read cell eid bit =>
          cases rest with
          | nil => exact .inl ⟨by simp [waitLoop, hpc, Sweep.pc], rfl⟩
          | cons c rest =>
              have hlook : s.look c.1 = .ok ((rest.map Prod.fst).head?, c.2) := hf.holds.look_eq
              obtain ⟨s', hround, hf'⟩ := hf.round bit
              by_cases hc : cell = c.1 ∧ eid = c.2
              · refine .inr ⟨s', _, ?_, if_pos hc, hf'⟩
                simpa [waitLoop, hpc, Sweep.pc, hlook, hc] using hround
              · refine .inl ⟨?_, if_neg hc⟩
                simp [waitLoop, hpc, Sweep.pc, hlook, hc]
      | sweepEnd =>
          cases rest with
          | nil =>
              refine .inr ⟨{ s with pc := .head }, .head kept, ?_, rfl, ?_, ?_, rfl⟩
              · simp [waitLoop, hpc, Sweep.pc]
              · simpa [Sweep.cells] using hf.holds
              · simpa [Sweep.cells] using hf.size
          | cons c rest => exact .inl ⟨by simp [waitLoop, hpc, Sweep.pc], rfl⟩
  | done =>
      refine .inl ⟨?_, by cases ev <;> rfl⟩
      cases ev <;> simp [waitLoop, hpc, Sweep.pc]

/-- Whole runs: a course of the loop is a course over the sequence. -/
theorem WaitState.Follows.run {s : WaitState} {pos : Sweep} {tr : List WaitEvent}
    {x : Except MemoryFault WaitState} (hf : s.Follows pos)
    (hrun : waitLoop.Run Machine.Any (.ok s) tr x) :
    ∃ s' pos', x = .ok s' ∧ sweeps.Run Machine.Any pos tr pos' ∧ s'.Follows pos' := by
  have hsim := hrun.simulates (N := sweeps) (f := id) (t := pos)
    (R := fun x pos => ∃ s, x = .ok s ∧ s.Follows pos) ?_ ⟨s, rfl, hf⟩
  · obtain ⟨pos', hrun', s', rfl, hf'⟩ := hsim
    exact ⟨s', pos', rfl, by simpa using hrun', hf'⟩
  · rintro _ pos ev x ⟨s, rfl, hf⟩ hstep
    rcases hf.step ev with ⟨hnone, _⟩ | ⟨s', pos', hsome, hpos, hf'⟩
    · simp [hnone] at hstep
    · rw [hsome, Option.some.injEq] at hstep
      exact ⟨pos', hpos, s', hstep.symm, hf'⟩

/-- Conversely, a course over the sequence is one of the loop. -/
theorem WaitState.Follows.exists_run {s : WaitState} {pos pos' : Sweep} {tr : List WaitEvent}
    (hf : s.Follows pos) (hrun : sweeps.Run Machine.Any pos tr pos') :
    ∃ s', waitLoop.Run Machine.Any (.ok s) tr (.ok s') ∧ s'.Follows pos' := by
  have hsim := hrun.simulates (N := waitLoop) (f := id) (t := .ok s)
    (R := fun pos x => ∃ s, x = .ok s ∧ s.Follows pos) ?_ ⟨s, rfl, hf⟩
  · obtain ⟨x, hrun', s', rfl, hf'⟩ := hsim
    exact ⟨s', by simpa using hrun', hf'⟩
  · rintro pos _ ev pos' ⟨s, rfl, hf⟩ hstep
    rcases hf.step ev with ⟨_, hnone⟩ | ⟨s', pos'', hsome, hpos, hf'⟩
    · simp [hnone] at hstep
    · rw [hpos, Option.some.injEq] at hstep
      exact ⟨.ok s', hsome, s', rfl, hstep ▸ hf'⟩

/-! ## What has been read -/

/-- A read that returned 1, of an occurrence with the property `p`. -/
def WaitEvent.isOne (p : Addr × Int32 → Bool) : WaitEvent → Bool
  | .test => false
  | .read cell eid bit => p (cell, eid) && bit
  | .sweepEnd => false

/-- Through the cell `a`. -/
def WaitEvent.isOneAt (a : Addr) : WaitEvent → Bool := isOne fun c => c.1 = a

/-- Of the bit of `eid`, through whichever cell. -/
def WaitEvent.isOneOf (eid : Int32) : WaitEvent → Bool := isOne fun c => c.2 = eid

/-- The occurrences at whose own cell no read has returned 1. -/
def unread (tr : List WaitEvent) (cs : List (Addr × Int32)) : List (Addr × Int32) :=
  cs.filter fun c => !tr.any (WaitEvent.isOneAt c.1)

/-- The occurrences of the eids whose bit no read has returned 1. -/
def bitUnread (tr : List WaitEvent) (cs : List (Addr × Int32)) : List (Addr × Int32) :=
  cs.filter fun c => !tr.any (WaitEvent.isOneOf c.2)

/-- A bit once read as 1 stays 1. -/
def StaysOne (tr : List WaitEvent) : Prop :=
  tr.Pairwise fun ev ev' => ∀ eid a, ev.isOneOf eid = true → ev' ≠ .read a eid false

theorem unread_append_singleton (tr : List WaitEvent) (ev : WaitEvent)
    (cs : List (Addr × Int32)) :
    unread (tr ++ [ev]) cs = (unread tr cs).filter fun c => !ev.isOneAt c.1 := by
  rw [unread, unread, List.filter_filter]
  refine List.filter_congr fun c _ => ?_
  simp [Bool.and_comm]

theorem unread_sublist (tr : List WaitEvent) (cs : List (Addr × Int32)) :
    (unread tr cs).Sublist cs :=
  List.filter_sublist

/-- One step takes the cell out whose read returns 1, and no other. -/
theorem Sweep.Step.cells_eq {pos pos' : Sweep} {ev : WaitEvent} (h : Sweep.Step pos ev pos')
    (hnodup : (pos.cells.map Prod.fst).Nodup) :
    pos'.cells = pos.cells.filter fun c => !ev.isOneAt c.1 := by
  cases h with
  | exit => rfl
  | enter cells => simp [Sweep.cells, WaitEvent.isOneAt, WaitEvent.isOne]
  | drop kept rest c =>
      -- no other cell has the address of the one deleted
      simp only [Sweep.cells, List.map_append, List.map_cons, List.nodup_append,
        List.nodup_cons, List.mem_cons, List.mem_map] at hnodup
      obtain ⟨_, ⟨hrest, _⟩, hkept⟩ := hnodup
      have hne : ∀ d ∈ kept ++ rest, c.1 ≠ d.1 := by
        intro d hd heq
        rcases List.mem_append.mp hd with hd | hd
        · exact hkept d.1 ⟨d, hd, rfl⟩ c.1 (.inl rfl) heq.symm
        · exact hrest ⟨d, hd, heq.symm⟩
      have hall : (kept ++ rest).filter (fun d => !(WaitEvent.read c.1 c.2 true).isOneAt d.1) =
          kept ++ rest := by
        refine List.filter_eq_self.mpr fun d hd => ?_
        simp [WaitEvent.isOneAt, WaitEvent.isOne, hne d hd]
      rw [Sweep.cells, ← hall]
      simp [Sweep.cells, WaitEvent.isOneAt, WaitEvent.isOne]
  | keep kept rest c => simp [Sweep.cells, WaitEvent.isOneAt, WaitEvent.isOne]
  | leave kept => simp [Sweep.cells, WaitEvent.isOneAt, WaitEvent.isOne]

/-- At every point what is left are the occurrences not read as 1. -/
theorem cells_eq_unread {cs : List (Addr × Int32)} {tr : List WaitEvent} {pos : Sweep}
    (hnodup : (cs.map Prod.fst).Nodup) (hrun : sweeps.Run Machine.Any (.head cs) tr pos) :
    pos.cells = unread tr cs := by
  refine hrun.tracks (P := fun tr pos => pos.cells = unread tr cs) ?_ ?_
  · intro tr pos ev pos' _ hstep ih
    rw [unread_append_singleton, ← ih]
    refine (Sweep.Step.of_step hstep).cells_eq ?_
    rw [ih]
    exact hnodup.sublist ((unread_sublist tr cs).map Prod.fst)
  · simp [Sweep.cells, unread]

/-- A sweep examines every cell it leaves in the list, and has read its bit as 0. -/
def Sweep.Examined (tr : List WaitEvent) : Sweep → Prop
  | .head cells => tr = [] ∨ ∀ c ∈ cells, .read c.1 c.2 false ∈ tr
  | .inside kept _ => ∀ c ∈ kept, .read c.1 c.2 false ∈ tr
  | .done => True

theorem examined_of_run {cells : List (Addr × Int32)} {tr : List WaitEvent} {pos : Sweep}
    (hrun : sweeps.Run Machine.Any (.head cells) tr pos) : pos.Examined tr := by
  refine hrun.tracks (P := fun tr pos => pos.Examined tr) ?_ (.inl rfl)
  intro tr pos ev pos' _ hstep ih
  cases Sweep.Step.of_step hstep with
  | exit => trivial
  | enter cells =>
      intro c hc
      cases hc
  | drop kept rest c => exact fun d hd => List.mem_append_left _ (ih d hd)
  | keep kept rest c =>
      intro d hd
      rcases List.mem_append.mp hd with hd | hd
      · exact List.mem_append_left _ (ih d hd)
      · rw [List.mem_singleton.mp hd]
        simp
  | leave kept => exact .inr fun d hd => List.mem_append_left _ (ih d hd)

/-- What is read is an occurrence. -/
theorem mem_of_read_mem {cs : List (Addr × Int32)} {tr : List WaitEvent} {pos : Sweep}
    (hnodup : (cs.map Prod.fst).Nodup) (hrun : sweeps.Run Machine.Any (.head cs) tr pos) :
    ∀ a eid bit, .read a eid bit ∈ tr → (a, eid) ∈ cs := by
  induction hrun with
  | nil =>
      intro a eid bit hmem
      cases hmem
  | @snoc tr ev pos _ hrun _ hstep ih =>
      intro a eid bit hmem
      have hcells := cells_eq_unread hnodup hrun
      rcases List.mem_append.mp hmem with hmem | hmem
      · exact ih a eid bit hmem
      · refine (unread_sublist tr cs).subset ?_
        rw [← hcells]
        have hev := List.mem_singleton.mp hmem
        cases Sweep.Step.of_step hstep with
        | exit => cases hev
        | enter cells => cases hev
        | drop kept rest c => cases hev; simp [Sweep.cells]
        | keep kept rest c => cases hev; simp [Sweep.cells]
        | leave kept => cases hev

theorem any_isOne {tr : List WaitEvent} {p : Addr × Int32 → Bool} :
    tr.any (WaitEvent.isOne p) = true ↔ ∃ c, p c = true ∧ .read c.1 c.2 true ∈ tr := by
  rw [List.any_eq_true]
  constructor
  · rintro ⟨ev, hmem, hone⟩
    cases ev with
    | test => cases hone
    | sweepEnd => cases hone
    | read cell eid bit =>
        simp only [WaitEvent.isOne, Bool.and_eq_true] at hone
        obtain ⟨hp, rfl⟩ := hone
        exact ⟨(cell, eid), hp, hmem⟩
  · rintro ⟨c, hp, hmem⟩
    exact ⟨_, hmem, by simp [WaitEvent.isOne, hp]⟩

/-- Where no eid is repeated, an occurrence and its bit are the same thing. -/
theorem unread_eq_bitUnread {cs : List (Addr × Int32)} {tr : List WaitEvent} {pos : Sweep}
    (hnodup : (cs.map Prod.fst).Nodup) (heids : (cs.map Prod.snd).Nodup)
    (hrun : sweeps.Run Machine.Any (.head cs) tr pos) : unread tr cs = bitUnread tr cs := by
  refine List.filter_congr fun c hc => ?_
  have hread := mem_of_read_mem hnodup hrun
  rw [Bool.not_inj_iff, Bool.eq_iff_iff, WaitEvent.isOneAt, WaitEvent.isOneOf, any_isOne, any_isOne]
  simp only [decide_eq_true_eq]
  constructor
  · rintro ⟨d, hd, hmem⟩
    have heq : d = c := List.inj_on_of_nodup_map hnodup (hread _ _ _ hmem) hc hd
    exact ⟨d, by rw [heq], hmem⟩
  · rintro ⟨d, hd, hmem⟩
    have heq : d = c := List.inj_on_of_nodup_map heids (hread _ _ _ hmem) hc hd
    exact ⟨d, by rw [heq], hmem⟩

/-- A bit read as 1 when a sweep starts has no occurrence left when it ends. -/
theorem gone_after_sweep {cells cells' : List (Addr × Int32)} {tr tr' : List WaitEvent}
    (hrun : sweeps.Run Machine.Any (.head cells) tr' (.head cells')) (hne : tr' ≠ [])
    (hstays : StaysOne (tr ++ tr')) {c : Addr × Int32} (hc : c ∈ cells') :
    tr.any (WaitEvent.isOneOf c.2) = false := by
  rcases examined_of_run hrun with hnil | hread
  · exact absurd hnil hne
  · by_contra hone
    rw [Bool.not_eq_false, List.any_eq_true] at hone
    obtain ⟨ev, hev, hone⟩ := hone
    exact (List.pairwise_append.mp hstays).2.2 ev hev _ (hread c hc) c.2 c.1 hone rfl

theorem sweeps_read (kept rest : List (Addr × Int32)) (c : Addr × Int32) (bit : Bool) :
    sweeps.step (.inside kept (c :: rest)) (.read c.1 c.2 bit) =
      some (if bit then .inside kept rest else .inside (kept ++ [c]) rest) :=
  if_pos ⟨rfl, rfl⟩

/-- Whatever the reads return, a sweep comes to its end. -/
theorem exec_sweep (bit : Addr × Int32 → Bool) (kept rest : List (Addr × Int32)) :
    sweeps.exec (.inside kept rest)
        ((rest.map fun c => .read c.1 c.2 (bit c)) ++ [.sweepEnd]) =
      some (.head (kept ++ rest.filter fun c => !bit c)) := by
  induction rest generalizing kept with
  | nil => simp [Machine.exec, sweeps]
  | cons c rest ih =>
      rw [List.map_cons, List.cons_append, Machine.exec, sweeps_read, Option.bind_some]
      cases hbit : bit c with
      | true => simp [ih, hbit]
      | false => simp [ih, hbit]

/-! ## The wait loop -/

/-- `size` starts as the length. -/
theorem start_follows {heap : Heap} {list : Option Addr} {cs : List (Addr × Int32)}
    (hlist : Holds .malloc heap list cs) :
    ∃ s₀, WaitState.start heap list = .ok s₀ ∧ s₀.Follows (.head cs) := by
  refine ⟨⟨heap, list, cs.length, .head⟩, ?_, hlist, rfl, rfl⟩
  rw [WaitState.start, hlist.listLength_eq, ok_bind, pure_eq_ok]

theorem WaitState.Follows.pos_head {s : WaitState} {pos : Sweep} (hf : s.Follows pos)
    (hpc : s.pc = .head) : pos = .head pos.cells := by
  have := hf.pc.symm.trans hpc
  cases pos <;> simp_all [Sweep.pc, Sweep.cells]

theorem Holds.nodup {m : Allocator} {h : Heap} {p : Option Addr} {cs : List (Addr × Int32)}
    (hh : Holds m h p cs) : (cs.map Prod.fst).Nodup := by
  cases hh with
  | nil => exact List.nodup_nil
  | list _ _ hh => exact hh.chain.nodup

/-- At the head the loop is left exactly when the list is `NIL`. -/
theorem WaitState.Follows.exits_iff {s : WaitState} {cells : List (Addr × Int32)}
    (hf : s.Follows (.head cells)) :
    waitLoop.step (.ok s) .test = some (.ok { s with pc := .done }) ↔ s.list = none := by
  have hsize : s.size = cells.length := hf.size
  have hnil : s.list = none ↔ cells = [] := hf.holds.nil_iff
  rw [hnil]
  rcases hf.step .test with ⟨_, hnone⟩ | ⟨s', pos', hsome, hpos, hf'⟩
  · cases hnone
  cases cells with
  | nil => simp [waitLoop, hf.pc, Sweep.pc, hsize]
  | cons c cells =>
      cases hpos
      constructor
      · intro hexit
        rw [hsome, Option.some.injEq, Except.ok.injEq] at hexit
        have hpc := hf'.pc
        rw [hexit] at hpc
        cases hpc
      · intro hnil
        cases hnil

/-- A sweep from the head, whatever the reads return. -/
theorem WaitState.Follows.exists_sweep {s : WaitState} {cells : List (Addr × Int32)}
    (hf : s.Follows (.head cells)) (hne : s.list ≠ none) (bit : Addr × Int32 → Bool) :
    ∃ s', waitLoop.Run Machine.Any (.ok s)
        (.test :: ((cells.map fun c => .read c.1 c.2 (bit c)) ++ [.sweepEnd])) (.ok s') ∧
      s'.pc = .head := by
  have hcells : cells ≠ [] := fun hnil => hne (hf.holds.nil_iff.mpr hnil)
  have hexec : sweeps.exec (.head cells)
      (.test :: ((cells.map fun c => .read c.1 c.2 (bit c)) ++ [.sweepEnd])) =
        some (.head (cells.filter fun c => !bit c)) := by
    have henter : sweeps.step (.head cells) .test = some (.inside [] cells) := by
      simp [sweeps, hcells]
    rw [Machine.exec, henter, Option.bind_some, exec_sweep, List.nil_append]
  obtain ⟨s', hrun, hf'⟩ := hf.exists_run (Machine.exec_run hexec)
  exact ⟨s', hrun, hf'.pc⟩

/-- Inside a sweep the cell to be examined is in the list, behind `prev`. -/
theorem WaitState.Follows.examining {s : WaitState} {pos : Sweep} {prev : Option Addr} {a : Addr}
    (hf : s.Follows pos) (hpc : s.pc = .cell prev (some a)) :
    ∃ kept eid rest, Holds .malloc s.heap s.list (kept ++ (a, eid) :: rest) ∧
      prev = (kept.map Prod.fst).getLast? := by
  rw [hf.pc] at hpc
  cases pos with
  | head cells => cases hpc
  | done => cases hpc
  | inside kept rest =>
      cases rest with
      | nil => cases hpc
      | cons c rest =>
          cases hpc
          exact ⟨kept, c.2, rest, hf.holds, rfl⟩

theorem WaitState.Follows.list_of_done {s : WaitState} {pos : Sweep} (hf : s.Follows pos)
    (hpc : s.pc = .done) : s.list = none := by
  rw [hf.pc] at hpc
  cases pos with
  | head cells => cases hpc
  | inside kept rest => cases hpc
  | done => exact hf.holds.nil_iff.mpr rfl

/-- Between two heads at least one sweep has ended. -/
theorem WaitState.Follows.after_sweep {s : WaitState} {cells cells' : List (Addr × Int32)}
    {tr' : List WaitEvent} (hf : s.Follows (.head cells')) (tr : List WaitEvent)
    (hrun : sweeps.Run Machine.Any (.head cells) tr' (.head cells')) (hne : tr' ≠ []) :
    ((∀ a eid, .read a eid false ∉ tr') → s.list = none) ∧
    (StaysOne (tr ++ tr') → ∀ c ∈ cells', tr.any (WaitEvent.isOneOf c.2) = false) := by
  refine ⟨?_, fun hstays c hc => gone_after_sweep hrun hne hstays hc⟩
  intro hones
  refine hf.holds.nil_iff.mpr (List.eq_nil_iff_forall_not_mem.mpr fun c hc => ?_)
  rcases examined_of_run hrun with hnil | hread
  · exact hne hnil
  · exact hones c.1 c.2 (hread c hc)

/-- For every list and every course of the loop: there is no fault; inside a sweep the cell
examined is in the list and `prev` is its predecessor; behind the loop the list is `NIL`;
and at the head `size` is the length and the list holds, in the original order, the
occurrences at whose own cell no read has returned 1, which are those whose bit has not been
read as 1 where no eid is repeated.  From there the loop is left exactly when the list is
`NIL`, and otherwise a sweep comes to its end whatever the reads return; at the end of a
sweep all of whose reads return 1 the list is `NIL`, and a bit that had been read as 1
when the sweep started has no occurrence left. -/
theorem wait_loop_filters {heap : Heap} {list : Option Addr} {cs : List (Addr × Int32)}
    (hlist : Holds .malloc heap list cs) :
    ∃ s₀, WaitState.start heap list = .ok s₀ ∧
      ∀ tr x, waitLoop.Run Machine.Any (.ok s₀) tr x → ∃ s, x = .ok s ∧
        (∀ prev a, s.pc = .cell prev (some a) → ∃ kept eid rest,
          Holds .malloc s.heap s.list (kept ++ (a, eid) :: rest) ∧
          prev = (kept.map Prod.fst).getLast?) ∧
        (s.pc = .done → s.list = none) ∧
        (s.pc = .head →
          listLength s.heap s.list = .ok s.size ∧
          Holds .malloc s.heap s.list (unread tr cs) ∧
          ((cs.map Prod.snd).Nodup → unread tr cs = bitUnread tr cs) ∧
          (waitLoop.step (.ok s) .test = some (.ok { s with pc := .done }) ↔ s.list = none) ∧
          (s.list ≠ none → ∀ bit : Addr × Int32 → Bool, ∃ s',
            waitLoop.Run Machine.Any (.ok s) (.test ::
              (((unread tr cs).map fun c => .read c.1 c.2 (bit c)) ++ [.sweepEnd])) (.ok s') ∧
            s'.pc = .head) ∧
          ∀ tr' s', waitLoop.Run Machine.Any (.ok s) tr' (.ok s') → tr' ≠ [] → s'.pc = .head →
            ((∀ a eid, .read a eid false ∉ tr') → s'.list = none) ∧
            (StaysOne (tr ++ tr') → unread (tr ++ tr') cs ⊆ bitUnread tr cs)) := by
  obtain ⟨s₀, hstart, hf₀⟩ := start_follows hlist
  refine ⟨s₀, hstart, ?_⟩
  intro tr x hrun
  obtain ⟨s, pos, rfl, hpos, hf⟩ := hf₀.run hrun
  have hcells : pos.cells = unread tr cs := cells_eq_unread hlist.nodup hpos
  refine ⟨s, rfl, fun prev a => hf.examining, hf.list_of_done, ?_⟩
  intro hpc
  have hhead := hf.pos_head hpc
  rw [hcells] at hhead
  subst hhead
  refine ⟨?_, hf.holds, fun heids => unread_eq_bitUnread hlist.nodup heids hpos,
    hf.exits_iff, fun hne => hf.exists_sweep hne, ?_⟩
  · rw [hf.holds.listLength_eq, hf.size]
  · intro tr' s' hrun' hne hpc'
    obtain ⟨_, pos', heq, hpos', hf'⟩ := hf.run hrun'
    cases heq
    have hcells' : pos'.cells = unread (tr ++ tr') cs :=
      cells_eq_unread hlist.nodup (hpos.append hpos')
    have hhead' := hf'.pos_head hpc'
    rw [hcells'] at hhead'
    subst hhead'
    obtain ⟨hones, hgone⟩ := hf'.after_sweep tr hpos' hne
    refine ⟨hones, fun hstays c hc => List.mem_filter.mpr ⟨(unread_sublist _ cs).subset hc, ?_⟩⟩
    rw [hgone hstays c hc]
    rfl

/-- Three cells, the last two read as 1 in the first sweep. -/
theorem wait_loop_filters_three :
    ∃ heap list s₀ s, Holds .malloc heap list [(1, 5), (2, 7), (3, 8)] ∧
      WaitState.start heap list = .ok s₀ ∧
      waitLoop.Run Machine.Any (.ok s₀)
        [.test, .read 1 5 false, .read 2 7 true, .read 3 8 true, .sweepEnd] (.ok s) ∧
      listLength s.heap s.list = .ok s.size ∧ Holds .malloc s.heap s.list [(1, 5)] := by
  obtain ⟨⟨heap, list⟩, hs⟩ := exists_stands .malloc [(1, 5), (2, 7), (3, 8)] (by decide)
  obtain ⟨s₀, hstart, hall⟩ := wait_loop_filters hs.holds
  obtain ⟨_, hstart', hf₀⟩ := start_follows hs.holds
  cases hstart.symm.trans hstart'
  have hcourse : sweeps.exec (.head [(1, 5), (2, 7), (3, 8)])
      [.test, .read 1 5 false, .read 2 7 true, .read 3 8 true, .sweepEnd] =
        some (.head [(1, 5)]) := by decide
  obtain ⟨s, hrun, hf⟩ := hf₀.exists_run (Machine.exec_run hcourse)
  obtain ⟨_, heq, _, _, hhead⟩ := hall _ _ hrun
  cases heq
  obtain ⟨hsize, hholds, _⟩ := hhead hf.pc
  exact ⟨heap, list, s₀, s, hs.holds, hstart, hrun, hsize, hholds⟩

/-- Two cells with one eid, whose bit is set between the two reads: it has been read as 1,
and at the next head the first cell is still in the list. -/
theorem wait_loop_keeps_repeated_eid :
    ∃ heap list s₀ s, Holds .malloc heap list [(1, 5), (2, 5)] ∧
      WaitState.start heap list = .ok s₀ ∧
      waitLoop.Run Machine.Any (.ok s₀)
        [.test, .read 1 5 false, .read 2 5 true, .sweepEnd] (.ok s) ∧
      StaysOne [.test, .read 1 5 false, .read 2 5 true, .sweepEnd] ∧ s.pc = .head ∧
      Holds .malloc s.heap s.list [(1, 5)] ∧
      ¬ Holds .malloc s.heap s.list
        (bitUnread [.test, .read 1 5 false, .read 2 5 true, .sweepEnd] [(1, 5), (2, 5)]) := by
  obtain ⟨⟨heap, list⟩, hs⟩ := exists_stands .malloc [(1, 5), (2, 5)] (by decide)
  obtain ⟨s₀, hstart, hf₀⟩ := start_follows hs.holds
  have hcourse : sweeps.exec (.head [(1, 5), (2, 5)])
      [.test, .read 1 5 false, .read 2 5 true, .sweepEnd] = some (.head [(1, 5)]) := by decide
  obtain ⟨s, hrun, hf⟩ := hf₀.exists_run (Machine.exec_run hcourse)
  have hholds : Holds .malloc s.heap s.list [(1, 5)] := hf.holds
  refine ⟨heap, list, s₀, s, hs.holds, hstart, hrun, ?_, hf.pc, hholds, ?_⟩
  · simp [StaysOne, WaitEvent.isOneOf, WaitEvent.isOne]
  · intro hbit
    have hnil : s.list = none := hbit.nil_iff.mpr (by decide)
    cases hholds.nil_iff.mp hnil

end BullFrog
