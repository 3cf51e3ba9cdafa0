/-
# `BullFrog.Nodes.Calls` — sequences of appends and deletions on a claim list

The specification of the list functions is a sequence of data (`sequences`): an append
puts a value at its end, a deletion takes the value at a position out.  The code is run on
a heap that is empty at first (`listCalls`), with the allocator and its answers as
parameters; a deletion names the cell at a position and its predecessor, as found by
following the links from the head.

Whatever calls are made, no fault occurs, the heap holds the list and nothing else, and
the list stands for the sequence the specification gives.  As this is so for both
allocators, the copies with `malloc` build the structure that the functions with
`palloc` build, up to the addresses.
-/
import BullFrog.Lib.Machine
import BullFrog.Nodes.List
import Mathlib.Data.List.Induction

namespace BullFrog

/-! ## The calls -/

inductive ListCall where
  | append (datum : Int32)
  | delete (pos : Nat)
  deriving DecidableEq, Repr

/-- What the calls are for. -/
def sequences : Machine (List Int32) ListCall where
  step ds
    | .append datum => some (ds ++ [datum])
    | .delete pos => if pos < ds.length then some (ds.eraseIdx pos) else none

/-- A call with the answers of the allocator. -/
inductive ListEvent where
  | append (datum : Int32) (newCell newList : Addr)
  | delete (pos : Nat)
  deriving DecidableEq, Repr

def ListEvent.call : ListEvent → ListCall
  | append datum _ _ => .append datum
  | delete pos => .delete pos

/-- The heap and the pointer the caller keeps. -/
structure ListState where
  heap : Heap
  list : Option Addr

/-- `NIL`, and nothing allocated. -/
def ListState.empty : ListState := ⟨⟨fun _ => none, fun _ => none⟩, none⟩

/-- The cell at a position and its predecessor, found from `cell` on. -/
def findCell (h : Heap) (prev cell : Option Addr) : Nat → Option (Option Addr × Addr)
  | 0 => cell.map fun a => (prev, a)
  | pos + 1 =>
      match cell with
      | none => none
      | some a => (h.links a).bind fun next => findCell h (some a) next pos

/-- The list functions with the allocator `m`.  An append is possible with addresses
that are free, a deletion at a position where there is a cell. -/
def listCalls (m : Allocator) : Machine (Except MemoryFault ListState) ListEvent where
  step
    | .error _, _ => none
    | .ok s, .append datum newCell newList =>
        if (s.heap.cells newCell).isNone && (s.heap.lists newList).isNone then
          some ((lappendIntWith m s.heap s.list datum newCell newList).map fun r => ⟨r.1, r.2⟩)
        else none
    | .ok s, .delete pos =>
        match listHead s.heap s.list with
        | .error f => some (.error f)
        | .ok head =>
            (findCell s.heap none head pos).map fun found =>
              (listDeleteCellWith m s.heap s.list (some found.2) found.1).map fun r => ⟨r.1, r.2⟩

/-- The cells and headers of two lists correspond under a renaming of the addresses. -/
def SameStructure (s s' : ListState) : Prop :=
  match s.list, s'.list with
  | none, none => True
  | some a, some a' =>
      ∃ (f : Addr → Addr) (l : ListHeader) (cells : List Addr),
        s.heap.header (some a) = .ok l ∧ Seg s.heap.links l.head cells none ∧
        s'.heap.header (some a') =
          .ok { l with head := l.head.map f, tail := l.tail.map f } ∧
        (∀ c ∈ cells, ∀ d ∈ cells, f c = f d → c = d) ∧
        ∀ c ∈ cells, ∃ cell, s.heap.cell (some c) = .ok cell ∧
          s'.heap.cell (some (f c)) = .ok { cell with next := cell.next.map f }
  | none, some _ => False
  | some _, none => False

/-! ## Finding a cell -/

section Finding

variable {h : Heap} {p : Option Addr} {l₁ l₂ : List Addr} {a : Addr}

/-- Following the links finds the cell at a position and its true predecessor. -/
theorem findCell_eq (hseg : Seg h.links p (l₁ ++ a :: l₂) none) (prev : Option Addr) :
    findCell h prev p l₁.length = some (l₁.getLast?.or prev, a) := by
  induction l₁ generalizing p prev with
  | nil =>
      rw [hseg.start_eq]
      rfl
  | cons x l₁ ih =>
      cases hseg with
      | cons hlink hseg =>
          show (h.links x).bind _ = _
          rw [hlink, Option.bind_some, ih hseg (some x)]
          cases hlast : l₁.getLast? <;> simp [List.getLast?_cons, hlast]

theorem findCell_past {l : List Addr} (hseg : Seg h.links p l none) (prev : Option Addr) (pos : Nat)
    (hpos : l.length ≤ pos) : findCell h prev p pos = none := by
  induction l generalizing p prev pos with
  | nil =>
      cases hseg
      cases pos <;> rfl
  | cons x l ih =>
      obtain ⟨n, rfl⟩ : ∃ n, pos = n + 1 := ⟨pos - 1, by simp at hpos; omega⟩
      cases hseg with
      | cons hlink hseg =>
          show (h.links x).bind _ = _
          rw [hlink, Option.bind_some]
          exact ih hseg (some x) n (by simpa using hpos)

end Finding

/-! ## Steps -/

variable {m : Allocator} {s : ListState} {cs : List (Addr × Int32)}

/-- The heap holds the list and nothing else. -/
structure Stands (m : Allocator) (s : ListState) (cs : List (Addr × Int32)) : Prop where
  holds : Holds m s.heap s.list cs
  cells : ∀ a, s.heap.cells a ≠ none → a ∈ cs.map Prod.fst
  lists : ∀ a, s.heap.lists a ≠ none → s.list = some a

theorem Holds.listHead_eq {h : Heap} {p : Option Addr} (hh : Holds m h p cs) :
    ∃ head, listHead h p = .ok head ∧ Seg h.links head (cs.map Prod.fst) none := by
  cases hh with
  | nil => exact ⟨none, rfl, .nil⟩
  | list _ hl hh => exact ⟨_, BullFrog.listHead_eq hl, hh.chain⟩

/-- The list is cut at a position, and that is where the links lead. -/
theorem Holds.find {h : Heap} {p : Option Addr} (hh : Holds m h p cs) {pos : Nat}
    (hpos : pos < cs.length) :
    ∃ cs₁ c cs₂ head, cs = cs₁ ++ c :: cs₂ ∧ cs₁.length = pos ∧ listHead h p = .ok head ∧
      findCell h none head pos = some ((cs₁.map Prod.fst).getLast?, c.1) := by
  obtain ⟨head, hhead, hseg⟩ := hh.listHead_eq
  refine ⟨cs.take pos, cs[pos], cs.drop (pos + 1), head, by simp, by simp; omega, hhead, ?_⟩
  have hcut : cs.map Prod.fst =
      (cs.take pos).map Prod.fst ++ cs[pos].1 :: (cs.drop (pos + 1)).map Prod.fst := by
    rw [← List.map_cons, ← List.map_append, List.getElem_cons_drop, List.take_append_drop]
  rw [hcut] at hseg
  have hfind := findCell_eq hseg none
  rw [List.length_map, List.length_take, Nat.min_eq_left (Nat.le_of_lt hpos),
    Option.or_none] at hfind
  exact hfind

theorem stands_empty : Stands m .empty [] :=
  ⟨.nil, fun _ h => absurd rfl h, fun _ h => absurd rfl h⟩

/-- One step: an append. -/
theorem Stands.append (hs : Stands m s cs) (datum : Int32) {n : Addr}
    (hn : s.heap.cells n = none) (n' : Addr) :
    ∃ s' : ListState, lappendIntWith m s.heap s.list datum n n' = .ok (s'.heap, s'.list) ∧
      Stands m s' (cs ++ [(n, datum)]) := by
  obtain ⟨h', hrun, hholds, htouch⟩ := hs.holds.lappend datum hn n'
  refine ⟨⟨h', _⟩, hrun, hholds, ?_, ?_⟩
  · intro a ha
    by_cases hmem : a ∈ n :: cs.map Prod.fst
    · simp at hmem ⊢
      tauto
    · rw [htouch.cells a hmem] at ha
      rw [List.map_append]
      exact List.mem_append_left _ (hs.cells a ha)
  · intro a ha
    by_contra hne
    rw [htouch.lists a hne] at ha
    exact hne (by rw [hs.lists a ha]; rfl)

/-- Appends build a list of any cells and data. -/
theorem exists_stands (m : Allocator) (cs : List (Addr × Int32)) (hcs : (cs.map Prod.fst).Nodup) :
    ∃ s, Stands m s cs := by
  induction cs using List.reverseRecOn with
  | nil => exact ⟨.empty, stands_empty⟩
  | append_singleton cs c ih =>
      rw [List.map_append, List.nodup_append] at hcs
      obtain ⟨s, hs⟩ := ih hcs.1
      have hfree : s.heap.cells c.1 = none := by
        by_contra hne
        exact hcs.2.2 c.1 (hs.cells c.1 hne) c.1 (by simp) rfl
      obtain ⟨s', _, hs'⟩ := hs.append c.2 hfree 0
      exact ⟨s', hs'⟩

/-- One step: a deletion. -/
theorem Stands.delete {c : Addr × Int32} {cs₁ cs₂ : List (Addr × Int32)}
    (hs : Stands m s (cs₁ ++ c :: cs₂)) :
    ∃ s' : ListState, listDeleteCellWith m s.heap s.list (some c.1)
        (cs₁.map Prod.fst).getLast? = .ok (s'.heap, s'.list) ∧ Stands m s' (cs₁ ++ cs₂) := by
  obtain ⟨h', p', hrun, hholds, hcell, hlist, htouch⟩ := hs.holds.delete
  refine ⟨⟨h', p'⟩, hrun, hholds, ?_, ?_⟩
  · intro a ha
    by_cases hmem : a ∈ (cs₁ ++ c :: cs₂).map Prod.fst
    · have hne : a ≠ c.1 := fun heq => ha (heq ▸ hcell)
      simp only [List.map_append, List.map_cons, List.mem_append, List.mem_cons, hne,
        false_or] at hmem ⊢
      exact hmem
    · rw [htouch.cells a hmem] at ha
      exact absurd (hs.cells a ha) hmem
  · intro a ha
    have hp : s.list = some a := by
      by_contra hne
      rw [htouch.lists a hne] at ha
      exact hne (hs.lists a ha)
    rcases hlist with rfl | ⟨_, hgone⟩
    · exact hp
    · exact absurd (hgone a hp) ha

/-- One step of the code is one step of the specification, and no fault. -/
theorem Stands.step (hs : Stands m s cs) {ev : ListEvent} {x : Except MemoryFault ListState}
    (hstep : (listCalls m).step (.ok s) ev = some x) :
    ∃ s' cs', x = .ok s' ∧ Stands m s' cs' ∧
      sequences.step (cs.map Prod.snd) ev.call = some (cs'.map Prod.snd) := by
  cases ev with
  | append datum n n' =>
      simp only [listCalls] at hstep
      split at hstep
      · rename_i hfree
        rw [Bool.and_eq_true, Option.isNone_iff_eq_none] at hfree
        obtain ⟨s', hrun, hs'⟩ := hs.append datum hfree.1 n'
        rw [hrun] at hstep
        cases hstep
        exact ⟨s', _, rfl, hs', by simp [sequences, ListEvent.call]⟩
      · cases hstep
  | delete pos =>
      by_cases hpos : pos < cs.length
      · obtain ⟨cs₁, c, cs₂, head, rfl, rfl, hhead, hfind⟩ := hs.holds.find hpos
        obtain ⟨s', hrun, hs'⟩ := hs.delete
        simp only [listCalls, hhead, hfind, Option.map_some, hrun] at hstep
        cases hstep
        refine ⟨s', _, rfl, hs', ?_⟩
        simp [sequences, ListEvent.call, List.eraseIdx_append_of_length_le]
      · obtain ⟨head, hhead, hseg⟩ := hs.holds.listHead_eq
        have hnone := findCell_past hseg none pos (by simpa using hpos)
        simp [listCalls, hhead, hnone] at hstep

/-! ## Runs -/

/-- Whole runs: the list stands for what the specification gives. -/
theorem stands_of_run {tr : List ListEvent} {x : Except MemoryFault ListState}
    (hrun : (listCalls m).Run Machine.Any (.ok .empty) tr x) :
    ∃ s cs, x = .ok s ∧ Stands m s cs ∧
      sequences.Run Machine.Any [] (tr.map ListEvent.call) (cs.map Prod.snd) := by
  have hsim := hrun.simulates (N := sequences) (f := ListEvent.call) (t := [])
    (R := fun x ds => ∃ s cs, x = .ok s ∧ Stands m s cs ∧ cs.map Prod.snd = ds) ?_
    ⟨.empty, [], rfl, stands_empty, rfl⟩
  · obtain ⟨_, hspec, s, cs, rfl, hs, rfl⟩ := hsim
    exact ⟨s, cs, rfl, hs, hspec⟩
  · rintro _ _ ev x ⟨s, cs, rfl, hs, rfl⟩ hstep
    obtain ⟨s', cs', rfl, hs', hspec⟩ := hs.step hstep
    exact ⟨_, hspec, s', cs', rfl, hs', rfl⟩

/-- There is always a free address. -/
theorem exists_fresh (l : List Nat) : ∃ n, n ∉ l := by
  suffices bound : ∃ n, ∀ a ∈ l, a < n by
    obtain ⟨n, hn⟩ := bound
    exact ⟨n, fun hmem => Nat.lt_irrefl n (hn n hmem)⟩
  induction l with
  | nil => exact ⟨0, by simp⟩
  | cons b l ih =>
      obtain ⟨n, hn⟩ := ih
      refine ⟨max n (b + 1), ?_⟩
      intro a ha
      rcases List.mem_cons.mp ha with rfl | ha
      · omega
      · have := hn a ha
        omega

/-- A call the specification allows can be made. -/
theorem Stands.exists_step (hs : Stands m s cs) {call : ListCall} {ds : List Int32}
    (hspec : sequences.step (cs.map Prod.snd) call = some ds) :
    ∃ ev, ev.call = call ∧ ((listCalls m).step (.ok s) ev).isSome = true := by
  cases call with
  | append datum =>
      obtain ⟨n, hn⟩ := exists_fresh (cs.map Prod.fst)
      obtain ⟨n', hn'⟩ := exists_fresh s.list.toList
      have hcell : s.heap.cells n = none := by
        by_contra hne
        exact hn (hs.cells n hne)
      have hlist : s.heap.lists n' = none := by
        by_contra hne
        exact hn' (by rw [hs.lists n' hne]; simp)
      exact ⟨.append datum n n', rfl, by simp [listCalls, hcell, hlist]⟩
  | delete pos =>
      have hpos : pos < cs.length := by
        by_contra hge
        simp [sequences, hge] at hspec
      obtain ⟨_, _, _, head, _, _, hhead, hfind⟩ := hs.holds.find hpos
      exact ⟨.delete pos, rfl, by simp [listCalls, hhead, hfind]⟩

/-- Every sequence of calls the specification allows can be made, with either allocator. -/
theorem exists_run_of_calls (m : Allocator) {calls : List ListCall} {ds : List Int32}
    (hspec : sequences.Run Machine.Any [] calls ds) :
    ∃ tr x, tr.map ListEvent.call = calls ∧
      (listCalls m).Run Machine.Any (.ok .empty) tr x := by
  suffices keeps : ∃ tr s cs, tr.map ListEvent.call = calls ∧
      (listCalls m).Run Machine.Any (.ok .empty) tr (.ok s) ∧ Stands m s cs ∧
      cs.map Prod.snd = ds by
    obtain ⟨tr, s, _, htr, hrun, _, _⟩ := keeps
    exact ⟨tr, .ok s, htr, hrun⟩
  induction hspec with
  | nil => exact ⟨[], .empty, [], rfl, .nil, stands_empty, rfl⟩
  | snoc _ _ hstep ih =>
      obtain ⟨tr, s, cs, rfl, hrun, hs, rfl⟩ := ih
      obtain ⟨ev, rfl, henabled⟩ := hs.exists_step hstep
      obtain ⟨x, hx⟩ := Option.isSome_iff_exists.mp henabled
      obtain ⟨s', cs', rfl, hs', hspec'⟩ := hs.step hx
      rw [hstep, Option.some.injEq] at hspec'
      exact ⟨tr ++ [ev], s', cs', by simp, .snoc hrun trivial hx, hs', hspec'.symm⟩

/-! ## The same structure -/

theorem eq_of_map_fst_of_map_snd {α β : Type} {l l' : List (α × β)}
    (h₁ : l.map Prod.fst = l'.map Prod.fst) (h₂ : l.map Prod.snd = l'.map Prod.snd) : l = l' := by
  rw [← List.zip_unzip l, ← List.zip_unzip l', List.unzip_eq_map, List.unzip_eq_map, h₁, h₂]

/-- Lists that stand for the same data have the same structure. -/
theorem sameStructure_of_holds {m' : Allocator} {s' : ListState} {cs' : List (Addr × Int32)}
    (hs : Holds m s.heap s.list cs) (hs' : Holds m' s'.heap s'.list cs')
    (hdata : cs'.map Prod.snd = cs.map Prod.snd) : SameStructure s s' := by
  obtain ⟨h, p⟩ := s
  obtain ⟨h', p'⟩ := s'
  have hlen : cs.length = cs'.length := by
    simpa using (congrArg List.length hdata).symm
  simp only at hs hs'
  cases hs with
  | nil =>
      cases hs' with
      | nil => trivial
      | list hne _ _ => exact absurd (List.length_eq_zero_iff.mp hlen.symm) hne
  | @list a l cs hne hl hh =>
      cases hs' with
      | nil => exact absurd (List.length_eq_zero_iff.mp hlen) hne
      | @list a' l' cs' _ hl' hh' =>
          obtain ⟨f, hmap, hinj, hlinks⟩ :=
            hh.chain.exists_rename hh'.chain (by simpa using hlen)
          have hcs' : cs' = cs.map fun c => (f c.1, c.2) := by
            refine eq_of_map_fst_of_map_snd ?_ ?_
            · simp [← hmap]
            · simp [hdata]
          refine ⟨f, l, cs.map Prod.fst, header_eq hl, hh.chain, ?_, hinj, ?_⟩
          · have hfields : l' = { l with head := l.head.map f, tail := l.tail.map f } := by
              refine ListHeader.ext (hh'.type.trans hh.type.symm) ?_ ?_ ?_
              · rw [hh'.length, hh.length, hlen]
              · rw [hh'.head, hh.head, ← hmap, List.head?_map]
              · rw [hh'.tail, hh.tail, ← hmap, List.getLast?_map]
            rw [header_eq hl', hfields]
          · intro a ha
            obtain ⟨c, hc, rfl⟩ := List.mem_map.mp ha
            obtain ⟨next, hcell⟩ := hh.data c hc
            have hmem : (f c.1, c.2) ∈ cs' := by
              rw [hcs']
              exact List.mem_map_of_mem hc
            obtain ⟨next', hcell'⟩ := hh'.data _ hmem
            have hnext : next' = next.map f := by
              have := hlinks c.1 ha
              simpa [Heap.links, hcell, hcell'] using this
            refine ⟨⟨some c.2, next⟩, ?_, ?_⟩
            · simp [Heap.cell, hcell]
            · simp [Heap.cell, hcell', hnext]

/-! ## The claim lists -/

/-- After any calls of `pg_lappend_int` and `pg_list_delete_cell` from `NIL`: there has been
no fault, the list stands for the sequence the calls are to give and passes
`check_list_invariants`, and any run of `lappend_int` and `list_delete_cell` with the same
calls has built the same structure.  Every sequence of calls can be made, with either
allocator. -/
theorem claim_lists_represent :
    (∀ (tr : List ListEvent) (x : Except MemoryFault ListState),
      (listCalls .malloc).Run Machine.Any (.ok .empty) tr x →
      ∃ s cs, x = .ok s ∧ Holds .malloc s.heap s.list cs ∧ (s.list = none ↔ cs = []) ∧
        sequences.Run Machine.Any [] (tr.map ListEvent.call) (cs.map Prod.snd) ∧
        checkListInvariants s.heap s.list = .ok () ∧
        ∀ (tr' : List ListEvent) (x' : Except MemoryFault ListState),
          (listCalls .palloc).Run Machine.Any (.ok .empty) tr' x' →
          tr'.map ListEvent.call = tr.map ListEvent.call →
          ∃ s', x' = .ok s' ∧ SameStructure s s') ∧
    ∀ (calls : List ListCall) (ds : List Int32), sequences.Run Machine.Any [] calls ds →
      ∀ m, ∃ tr x, tr.map ListEvent.call = calls ∧
        (listCalls m).Run Machine.Any (.ok .empty) tr x := by
  refine ⟨?_, fun calls ds hspec m => exists_run_of_calls m hspec⟩
  intro tr x hrun
  obtain ⟨s, cs, rfl, hs, hspec⟩ := stands_of_run hrun
  refine ⟨s, cs, rfl, hs.holds, hs.holds.nil_iff, hspec, hs.holds.check, ?_⟩
  intro tr' x' hrun' hcalls
  obtain ⟨s', cs', rfl, hs', hspec'⟩ := stands_of_run hrun'
  rw [hcalls] at hspec'
  exact ⟨s', rfl, sameStructure_of_holds hs.holds hs'.holds (hspec'.unique hspec)⟩

/-- Three appends, the deletion of the last cell and a further append, to which `malloc`
gives the address that has become free. -/
theorem claim_lists_after_tail_deletion :
    ∃ s cs, (listCalls .malloc).Run Machine.Any (.ok .empty)
        [.append 7 1 9, .append 8 2 10, .append 9 3 10, .delete 2, .append 7 3 10] (.ok s) ∧
      Holds .malloc s.heap s.list cs ∧ cs.map Prod.snd = [7, 8, 7] := by
  obtain ⟨x, hrun, _⟩ := Machine.exists_run (M := listCalls .malloc) (s := .ok .empty)
    [.append 7 1 9, .append 8 2 10, .append 9 3 10, .delete 2, .append 7 3 10]
    (p := fun _ => true) (by decide)
  obtain ⟨s, cs, rfl, hholds, _, hspec, _⟩ := claim_lists_represent.1 _ x hrun
  refine ⟨s, cs, hrun, hholds, ?_⟩
  exact (Option.some.inj hspec.exec_eq).symm

end BullFrog
