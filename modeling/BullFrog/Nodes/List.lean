/-
# `BullFrog.Nodes.List` — the claim lists of `list.c`, cell by cell

`InProgLocalList0` and `InProgLocalList1` are linked lists built by `pg_lappend_int` and
taken apart by `pg_list_delete_cell`, which are copies of `lappend_int` and
`list_delete_cell` with `malloc` and `free` in the place of `palloc` and `pfree`.  A
function and its copy are one definition here, with the allocator as a parameter.

A heap holds list headers and list cells, each with the allocator it came from.  What C
leaves undefined is a `MemoryFault`: a pointer that leads nowhere, memory given back to the
wrong allocator, a cell whose data has not been stored yet.  A failed `Assert` is a fault
as well.  Which addresses the allocator returns is not the code's choice; they are
arguments, and any free address will do.

`Holds m h l cs` says that in heap `h` the pointer `l` is the list of the cells `cs`, each
an address with its data.  Appending (`Holds.lappend`) and deleting (`Holds.delete`) keep
it, and touch nothing else.
-/
import BullFrog.Lib.Chain
import Mathlib.Logic.Function.Basic

namespace BullFrog

/-! ## Memory -/

/-- The address of a cell or a header; a pointer is an `Option Addr`. -/
abbrev Addr := Nat

inductive Allocator where
  | malloc
  | palloc
  deriving DecidableEq, Repr

/-- `NodeTag`, as far as lists are concerned. -/
inductive NodeTag where
  | list
  | intList
  | oidList
  | other (n : Nat)
  deriving DecidableEq, Repr

/-- `ListCell`, with `int_value`; the data is `none` until it has been stored. -/
structure ListCell where
  data : Option Int32
  next : Option Addr
  deriving DecidableEq, Repr

/-- `List`. -/
@[ext] structure ListHeader where
  type : NodeTag
  length : Int
  head : Option Addr
  tail : Option Addr
  deriving DecidableEq, Repr

structure Heap where
  cells : Addr → Option (Allocator × ListCell)
  lists : Addr → Option (Allocator × ListHeader)

inductive MemoryFault where
  /-- a pointer is followed that is null or leads to memory not allocated -/
  | badPointer
  /-- memory is freed that came from the other allocator -/
  | wrongAllocator
  /-- the data of a cell is read before it is stored -/
  | undefinedData
  /-- an `Assert` fails -/
  | assertion
  /-- a loop over the cells goes past the length of the list -/
  | endless
  deriving DecidableEq, Repr

namespace Heap

def cell (h : Heap) : Option Addr → Except MemoryFault ListCell
  | none => .error .badPointer
  | some a =>
      match h.cells a with
      | none => .error .badPointer
      | some (_, c) => .ok c

def header (h : Heap) : Option Addr → Except MemoryFault ListHeader
  | none => .error .badPointer
  | some a =>
      match h.lists a with
      | none => .error .badPointer
      | some (_, l) => .ok l

/-- A store to fields of a cell. -/
def updateCell (h : Heap) (f : ListCell → ListCell) : Option Addr → Except MemoryFault Heap
  | none => .error .badPointer
  | some a =>
      match h.cells a with
      | none => .error .badPointer
      | some (m, c) => .ok { h with cells := Function.update h.cells a (some (m, f c)) }

/-- A store to fields of a header. -/
def updateHeader (h : Heap) (f : ListHeader → ListHeader) : Option Addr → Except MemoryFault Heap
  | none => .error .badPointer
  | some a =>
      match h.lists a with
      | none => .error .badPointer
      | some (m, l) => .ok { h with lists := Function.update h.lists a (some (m, f l)) }

def freeCell (h : Heap) (m : Allocator) : Option Addr → Except MemoryFault Heap
  | none => .error .badPointer
  | some a =>
      match h.cells a with
      | none => .error .badPointer
      | some (m', _) =>
          if m = m' then .ok { h with cells := Function.update h.cells a none }
          else .error .wrongAllocator

def freeHeader (h : Heap) (m : Allocator) : Option Addr → Except MemoryFault Heap
  | none => .error .badPointer
  | some a =>
      match h.lists a with
      | none => .error .badPointer
      | some (m', _) =>
          if m = m' then .ok { h with lists := Function.update h.lists a none }
          else .error .wrongAllocator

end Heap

/-! ## `pg_list.h` and `list.c` -/

/-- `list_head`. -/
def listHead (h : Heap) : Option Addr → Except MemoryFault (Option Addr)
  | none => .ok none
  | some a => do return (← h.header (some a)).head

/-- `list_length`. -/
def listLength (h : Heap) : Option Addr → Except MemoryFault Int
  | none => .ok 0
  | some a => do return (← h.header (some a)).length

/-- `lnext`. -/
def lnext (h : Heap) (cell : Option Addr) : Except MemoryFault (Option Addr) := do
  return (← h.cell cell).next

/-- `lfirst_int`, read. -/
def lfirstInt (h : Heap) (cell : Option Addr) : Except MemoryFault Int32 := do
  match (← h.cell cell).data with
  | none => .error .undefinedData
  | some d => .ok d

/-- `Assert`. -/
def assertThat (p : Prop) [Decidable p] : Except MemoryFault Unit :=
  if p then .ok () else .error .assertion

/-- `IsIntegerList`. -/
def isIntegerList (h : Heap) : Option Addr → Except MemoryFault Bool
  | none => .ok true
  | some a => do return (← h.header (some a)).type = .intList

/-- `check_list_invariants`. -/
def checkListInvariants (h : Heap) : Option Addr → Except MemoryFault Unit
  | none => .ok ()
  | some a => do
      let list ← h.header (some a)
      assertThat (0 < list.length)
      assertThat (list.head ≠ none)
      assertThat (list.tail ≠ none)
      assertThat (list.type = .list ∨ list.type = .intList ∨ list.type = .oidList)
      if list.length = 1 then
        assertThat (list.head = list.tail)
      if list.length = 2 then
        assertThat ((← lnext h list.head) = list.tail)
      assertThat ((← lnext h list.tail) = none)

section Family

variable (m : Allocator)

/-- `new_list` and `pg_new_list`. -/
def newListWith (h : Heap) (type : NodeTag) (newHead newList : Addr) : Heap × Option Addr :=
  ({ cells := Function.update h.cells newHead (some (m, ⟨none, none⟩))
     lists := Function.update h.lists newList (some (m, ⟨type, 1, some newHead, some newHead⟩)) },
    some newList)

/-- `new_tail_cell` and `pg_new_tail_cell`. -/
def newTailCellWith (h : Heap) (list : Option Addr) (newTail : Addr) : Except MemoryFault Heap := do
  let h := { h with cells := Function.update h.cells newTail (some (m, ⟨none, none⟩)) }
  let tail := (← h.header list).tail
  let h ← h.updateCell (fun c => { c with next := some newTail }) tail
  let h ← h.updateHeader (fun l => { l with tail := some newTail }) list
  h.updateHeader (fun l => { l with length := l.length + 1 }) list

/-- `lappend_int` and `pg_lappend_int`. -/
def lappendIntWith (h : Heap) (list : Option Addr) (datum : Int32) (newCell newList : Addr) :
    Except MemoryFault (Heap × Option Addr) := do
  assertThat ((← isIntegerList h list) = true)
  let (h, list) ←
    if list = none then pure (newListWith m h .intList newCell newList)
    else do
      let h ← newTailCellWith m h list newCell
      pure (h, list)
  let tail := (← h.header list).tail
  let h ← h.updateCell (fun c => { c with data := some datum }) tail
  checkListInvariants h list
  return (h, list)

/-- The loop of `list_free_private` and `pg_list_free`, with a bound on its rounds. -/
def freeCellsWith : Nat → Heap → Option Addr → Except MemoryFault Heap
  | _, h, none => .ok h
  | 0, _, some _ => .error .endless
  | rounds + 1, h, some tmp => do
      let cell ← lnext h (some tmp)
      let h ← h.freeCell m (some tmp)
      freeCellsWith rounds h cell

/-- `list_free` and `pg_list_free`, not deep. -/
def listFreeWith (h : Heap) (list : Option Addr) : Except MemoryFault Heap := do
  checkListInvariants h list
  let rounds := (← listLength h list).toNat
  let h ← freeCellsWith m rounds h (← listHead h list)
  if list = none then pure h else h.freeHeader m list

/-- `list_delete_cell` and `pg_list_delete_cell`. -/
def listDeleteCellWith (h : Heap) (list cell prev : Option Addr) :
    Except MemoryFault (Heap × Option Addr) := do
  checkListInvariants h list
  let before ← if prev ≠ none then lnext h prev else listHead h list
  assertThat (before = cell)
  if (← h.header list).length = 1 then
    let h ← listFreeWith m h list
    return (h, none)
  else
    let h ← h.updateHeader (fun l => { l with length := l.length - 1 }) list
    let next ← lnext h cell
    let h ←
      if prev ≠ none then h.updateCell (fun c => { c with next := next }) prev
      else h.updateHeader (fun l => { l with head := next }) list
    let h ←
      if (← h.header list).tail = cell then
        h.updateHeader (fun l => { l with tail := prev }) list
      else pure h
    let h ← h.freeCell m cell
    return (h, list)

end Family

def lappendInt := lappendIntWith .palloc

def pgLappendInt := lappendIntWith .malloc

def listFree := listFreeWith .palloc

def pgListFree := listFreeWith .malloc

def listDeleteCell := listDeleteCellWith .palloc

def pgListDeleteCell := listDeleteCellWith .malloc

/-! ## What a list is in memory -/

/-- The links of the cells. -/
def Heap.links (h : Heap) (a : Addr) : Option (Option Addr) := (h.cells a).map (·.2.next)

/-- The header `l` stands for the cells `cs`: they are the chain from `head`, `tail` is the
last of them and `length` their number. -/
structure HeaderHolds (m : Allocator) (h : Heap) (l : ListHeader) (cs : List (Addr × Int32)) :
    Prop where
  type : l.type = .intList
  length : l.length = cs.length
  tail : l.tail = (cs.map Prod.fst).getLast?
  chain : Seg h.links l.head (cs.map Prod.fst) none
  data : ∀ c ∈ cs, ∃ next, h.cells c.1 = some (m, ⟨some c.2, next⟩)

/-- The pointer stands for the cells: it is `NIL` exactly if there are none. -/
inductive Holds (m : Allocator) (h : Heap) : Option Addr → List (Addr × Int32) → Prop
  | nil : Holds m h none []
  | list {a : Addr} {l : ListHeader} {cs : List (Addr × Int32)} :
      cs ≠ [] → h.lists a = some (m, l) → HeaderHolds m h l cs → Holds m h (some a) cs

section Reading

variable {m : Allocator} {h : Heap} {a : Addr} {r p : Option Addr} {l : ListHeader}
  {cs : List (Addr × Int32)}

theorem ok_bind {ε α β : Type} (x : α) (f : α → Except ε β) : (Except.ok x >>= f) = f x := rfl

theorem pure_eq_ok {ε α : Type} (x : α) : (pure x : Except ε α) = .ok x := rfl

theorem header_eq (hl : h.lists a = some (m, l)) : h.header (some a) = .ok l := by
  simp [Heap.header, hl]

theorem lnext_eq (hl : h.links a = some r) : lnext h (some a) = .ok r := by
  rw [Heap.links, Option.map_eq_some_iff] at hl
  obtain ⟨⟨m, c⟩, hc, rfl⟩ := hl
  simp [lnext, Heap.cell, hc, ok_bind, pure_eq_ok]

theorem assertThat_eq {q : Prop} [Decidable q] (hq : q) : assertThat q = .ok () := by
  simp [assertThat, hq]

theorem HeaderHolds.head (hh : HeaderHolds m h l cs) : l.head = (cs.map Prod.fst).head? :=
  hh.chain.start_eq

theorem Holds.nil_iff (hh : Holds m h p cs) : p = none ↔ cs = [] := by
  cases hh with
  | nil => simp
  | list hne _ _ => simp [hne]

/-- The last cell of a list points nowhere. -/
theorem HeaderHolds.lnext_tail (hh : HeaderHolds m h l cs) (hne : cs ≠ []) :
    lnext h l.tail = .ok none := by
  have hcs := List.dropLast_concat_getLast hne
  have hchain := hh.chain
  have htail := hh.tail
  rw [← hcs, List.map_append, List.map_singleton] at hchain htail
  rw [htail, List.getLast?_concat]
  exact lnext_eq hchain.link_eq

/-- A list that stands for some cells passes every assertion. -/
theorem Holds.check (hh : Holds m h p cs) : checkListInvariants h p = .ok () := by
  cases hh with
  | nil => rfl
  | @list a l cs hne hl hh =>
      have hlast := hh.lnext_tail hne
      have hhead := hh.head
      have htail := hh.tail
      have hlen := hh.length
      rw [checkListInvariants, header_eq hl, ok_bind]
      match cs, hne with
      | [c], _ =>
          simp_all [ok_bind, assertThat, hh.type]
      | [c, d], _ =>
          have hlink : h.links c.1 = some (some d.1) := Seg.link_eq (l := []) hh.chain
          simp_all [ok_bind, assertThat, hh.type, lnext_eq]
      | c :: d :: e :: rest, _ =>
          have h1 : l.length ≠ 1 := by simp at hlen; omega
          have h2 : l.length ≠ 2 := by simp at hlen; omega
          have h0 : 0 < l.length := by simp at hlen; omega
          simp_all [ok_bind, assertThat, hh.type]

end Reading

/-! ## What an edit leaves alone -/

/-- Nothing changes but the cells `as` and the header at `p`. -/
structure OnlyTouches (h h' : Heap) (as : List Addr) (p : Option Addr) : Prop where
  cells : ∀ a, a ∉ as → h'.cells a = h.cells a
  lists : ∀ a, p ≠ some a → h'.lists a = h.lists a

/-- An edit of one header. -/
theorem OnlyTouches.of_cells {h : Heap} {as : List Addr} {a : Addr}
    {cells : Addr → Option (Allocator × ListCell)} {v : Option (Allocator × ListHeader)}
    (hcells : ∀ b, b ∉ as → cells b = h.cells b) :
    OnlyTouches h ⟨cells, Function.update h.lists a v⟩ as (some a) := by
  refine ⟨hcells, ?_⟩
  intro b hb
  exact Function.update_of_ne (fun heq => hb (by rw [heq])) ..

/-- Cells that are kept keep their links. -/
theorem links_congr {h h' : Heap} {cs : List (Addr × Int32)}
    (hkeep : ∀ c ∈ cs, h'.cells c.1 = h.cells c.1) :
    ∀ b ∈ cs.map Prod.fst, h'.links b = h.links b := by
  intro b hb
  obtain ⟨c, hc, rfl⟩ := List.mem_map.mp hb
  rw [Heap.links, hkeep c hc, Heap.links]

/-! ## Appending -/

section Appending

variable {m : Allocator} {h : Heap} {cs : List (Addr × Int32)} {n : Addr}

/-- The first element. -/
theorem lappendIntWith_nil (datum : Int32) (n n' : Addr) :
    ∃ h', lappendIntWith m h none datum n n' = .ok (h', some n') ∧
      Holds m h' (some n') [(n, datum)] ∧ OnlyTouches h h' [n] (some n') := by
  let h' : Heap :=
    { cells := Function.update h.cells n (some (m, ⟨some datum, none⟩))
      lists := Function.update h.lists n' (some (m, ⟨.intList, 1, some n, some n⟩)) }
  have hholds : Holds m h' (some n') [(n, datum)] := by
    refine .list (by simp) (Function.update_self ..) ⟨rfl, rfl, rfl, .cons ?_ .nil, ?_⟩
    · simp [Heap.links, h']
    · simp [h']
  refine ⟨h', ?_, hholds, .of_cells fun a ha => Function.update_of_ne (by simpa using ha) ..⟩
  simp [lappendIntWith, isIntegerList, newListWith, assertThat, Heap.header, Heap.updateCell,
    ok_bind, pure_eq_ok, h', hholds.check]

theorem HeaderHolds.ne_of_free {l : ListHeader} (hh : HeaderHolds m h l cs)
    (hn : h.cells n = none) {c : Addr × Int32} (hc : c ∈ cs) : c.1 ≠ n := by
  rintro rfl
  obtain ⟨next, hcell⟩ := hh.data c hc
  rw [hn] at hcell
  cases hcell

/-- The last cell is pointed to a new one, which becomes the tail. -/
theorem HeaderHolds.extend {h' : Heap} {l : ListHeader} {t : Addr × Int32} {datum : Int32}
    (hh : HeaderHolds m h l (cs ++ [t])) (hkeep : ∀ c ∈ cs, h'.cells c.1 = h.cells c.1)
    (ht : h'.cells t.1 = some (m, ⟨some t.2, some n⟩))
    (hn : h'.cells n = some (m, ⟨some datum, none⟩)) :
    HeaderHolds m h' { l with tail := some n, length := l.length + 1 }
      (cs ++ [t] ++ [(n, datum)]) := by
  refine ⟨hh.type, ?_, by simp, ?_, ?_⟩
  · simp [hh.length]
    omega
  · have hchain := hh.chain
    rw [List.map_append, List.map_singleton] at hchain
    rw [List.map_append, List.map_append, List.map_singleton, List.map_singleton]
    exact hchain.extend (links_congr hkeep) (by simp [Heap.links, ht]) (by simp [Heap.links, hn])
  · intro c hc
    rw [List.append_assoc, List.mem_append] at hc
    rcases hc with hc | hc
    · rw [hkeep c hc]
      exact hh.data c (by simp [hc])
    · rcases List.mem_pair.mp hc with rfl | rfl
      · exact ⟨_, ht⟩
      · exact ⟨_, hn⟩

/-- A further element. -/
theorem lappendIntWith_cons {a : Addr} {l : ListHeader} (hne : cs ≠ [])
    (hl : h.lists a = some (m, l)) (hh : HeaderHolds m h l cs) (datum : Int32)
    (hn : h.cells n = none) (n' : Addr) :
    ∃ h', lappendIntWith m h (some a) datum n n' = .ok (h', some a) ∧
      Holds m h' (some a) (cs ++ [(n, datum)]) ∧
      OnlyTouches h h' (n :: cs.map Prod.fst) (some a) := by
  obtain ⟨init, t, rfl⟩ : ∃ init t, cs = init ++ [t] :=
    ⟨cs.dropLast, cs.getLast hne, (List.dropLast_concat_getLast hne).symm⟩
  have htn : t.1 ≠ n := hh.ne_of_free hn (by simp)
  obtain ⟨next, ht⟩ := hh.data t (by simp)
  have htail : l.tail = some t.1 := by simp [hh.tail]
  let l' : ListHeader := { l with tail := some n, length := l.length + 1 }
  -- the heap before the datum is stored, and after
  let h₁ : Heap :=
    { cells := Function.update (Function.update h.cells n (some (m, ⟨none, none⟩)))
        t.1 (some (m, ⟨some t.2, some n⟩))
      lists := Function.update h.lists a (some (m, l')) }
  let h' : Heap :=
    { h₁ with cells := Function.update h₁.cells n (some (m, ⟨some datum, none⟩)) }
  have hcells : ∀ b, b ≠ n → b ≠ t.1 → h'.cells b = h.cells b := by
    intro b hbn hbt
    simp [h', h₁, hbn, hbt]
  have hinit : ∀ c ∈ init, h'.cells c.1 = h.cells c.1 := by
    intro c hc
    have hnodup := hh.chain.nodup
    rw [List.map_append, List.nodup_append] at hnodup
    exact hcells c.1 (hh.ne_of_free hn (by simp [hc]))
      (hnodup.2.2 c.1 (List.mem_map_of_mem hc) t.1 (by simp))
  have hholds : Holds m h' (some a) (init ++ [t] ++ [(n, datum)]) :=
    .list (by simp) (Function.update_self ..)
      (hh.extend hinit (by simp [h', h₁, htn]) (Function.update_self ..))
  refine ⟨h', ?_, hholds, .of_cells ?_⟩
  · have hint : isIntegerList h (some a) = .ok true := by
      simp [isIntegerList, header_eq hl, ok_bind, pure_eq_ok, hh.type]
    have hnew : newTailCellWith m h (some a) n = .ok h₁ := by
      simp [newTailCellWith, Heap.header, Heap.updateCell, Heap.updateHeader, ok_bind, hl, htail,
        htn, ht, h₁, l']
    have hheader : h₁.header (some a) = .ok l' := header_eq (Function.update_self ..)
    have hstore : h₁.updateCell (fun c => { c with data := some datum }) (some n) = .ok h' := by
      simp [Heap.updateCell, h₁, h', htn.symm]
    simp only [lappendIntWith, hint, ok_bind, assertThat_eq, reduceCtorEq, if_false, hnew,
      pure_eq_ok, hheader, l', hstore, hholds.check]
  · intro b hb
    simp only [List.mem_cons, List.map_append, List.mem_append, List.map_singleton, not_or] at hb
    exact hcells b hb.1 (by simpa using hb.2.2)

/-- Appending to a list appends to its cells, at whatever free address. -/
theorem Holds.lappend {p : Option Addr} (hh : Holds m h p cs) (datum : Int32)
    (hn : h.cells n = none) (n' : Addr) :
    ∃ h', lappendIntWith m h p datum n n' = .ok (h', some (p.getD n')) ∧
      Holds m h' (some (p.getD n')) (cs ++ [(n, datum)]) ∧
      OnlyTouches h h' (n :: cs.map Prod.fst) (some (p.getD n')) := by
  cases hh with
  | nil => exact lappendIntWith_nil datum n n'
  | list hne hl hh => exact lappendIntWith_cons hne hl hh datum hn n'

end Appending

/-! ## Deleting -/

section Deleting

variable {m : Allocator} {h : Heap} {a : Addr} {l : ListHeader} {c : Addr × Int32}
  {cs₁ cs₂ : List (Addr × Int32)}

theorem listHead_eq (hl : h.lists a = some (m, l)) : listHead h (some a) = .ok l.head := by
  simp [listHead, header_eq hl, ok_bind, pure_eq_ok]

theorem listLength_eq (hl : h.lists a = some (m, l)) : listLength h (some a) = .ok l.length := by
  simp [listLength, header_eq hl, ok_bind, pure_eq_ok]

/-- The only element: the header goes too. -/
theorem listDeleteCellWith_only (hl : h.lists a = some (m, l)) (hh : HeaderHolds m h l [c]) :
    ∃ h', listDeleteCellWith m h (some a) (some c.1) none = .ok (h', none) ∧
      h'.cells c.1 = none ∧ h'.lists a = none ∧ OnlyTouches h h' [c.1] (some a) := by
  obtain ⟨next, hc⟩ := hh.data c (by simp)
  have hcheck := (Holds.list (by simp) hl hh).check
  have hhead : listHead h (some a) = .ok (some c.1) := by
    rw [listHead_eq hl, hh.head]
    rfl
  have hlen : l.length = 1 := hh.length
  have hlink : lnext h (some c.1) = .ok none := lnext_eq (Seg.link_eq (l := []) hh.chain)
  let h' : Heap :=
    { cells := Function.update h.cells c.1 none, lists := Function.update h.lists a none }
  have hfree : listFreeWith m h (some a) = .ok h' := by
    simp [listFreeWith, hcheck, listLength_eq hl, hlen, hhead, freeCellsWith, hlink,
      Heap.freeCell, hc, Heap.freeHeader, hl, ok_bind, h']
  refine ⟨h', ?_, Function.update_self .., Function.update_self ..,
    .of_cells fun b hb => Function.update_of_ne (by simpa using hb) ..⟩
  simp [listDeleteCellWith, hcheck, hhead, assertThat, header_eq hl, hlen, hfree, ok_bind,
    pure_eq_ok]

/-- The first of several elements. -/
theorem listDeleteCellWith_head (hne : cs₂ ≠ []) (hl : h.lists a = some (m, l))
    (hh : HeaderHolds m h l (c :: cs₂)) :
    ∃ h', listDeleteCellWith m h (some a) (some c.1) none = .ok (h', some a) ∧
      Holds m h' (some a) cs₂ ∧ h'.cells c.1 = none ∧
      OnlyTouches h h' (c.1 :: cs₂.map Prod.fst) (some a) := by
  obtain ⟨_, hc⟩ := hh.data c (by simp)
  have hnodup := List.nodup_cons.mp hh.chain.nodup
  have hlast : l.tail = (cs₂.map Prod.fst).getLast? := by
    rw [hh.tail, List.map_cons, List.getLast?_cons_of_ne_nil (by simpa using hne)]
  have htail : l.tail ≠ some c.1 := by
    rw [hlast]
    exact fun heq => hnodup.1 (List.mem_of_getLast? heq)
  have hlen : l.length ≠ 1 := by
    have := hh.length
    have := List.length_pos_iff.mpr hne
    simp at *
    omega
  let next := (cs₂.map Prod.fst).head?
  let h' : Heap :=
    { cells := Function.update h.cells c.1 none
      lists := Function.update h.lists a
        (some (m, { l with length := l.length - 1, head := next })) }
  have hkeep : ∀ d ∈ cs₂, h'.cells d.1 = h.cells d.1 := by
    intro d hd
    have hne : d.1 ≠ c.1 := fun heq => hnodup.1 (heq ▸ List.mem_map_of_mem hd)
    exact Function.update_of_ne hne ..
  refine ⟨h', ?_, ?_, Function.update_self .., .of_cells ?_⟩
  · have hhead : listHead h (some a) = .ok (some c.1) := by
      rw [listHead_eq hl, hh.head]
      rfl
    have hlink : h.links c.1 = some next := Seg.link_eq (l := []) hh.chain
    have hnext : ∀ lists, lnext { h with lists := lists } (some c.1) = .ok next :=
      fun lists => lnext_eq hlink
    simp [listDeleteCellWith, (Holds.list (by simp) hl hh).check, hhead, assertThat, Heap.header,
      Heap.updateHeader, Heap.freeCell, hl, hlen, hnext, htail, hc, ok_bind, pure_eq_ok, h']
  · refine .list hne (Function.update_self ..) ⟨hh.type, ?_, hlast, ?_, ?_⟩
    · simp [hh.length]
    · exact hh.chain.tail (links_congr hkeep)
    · intro d hd
      rw [hkeep d hd]
      exact hh.data d (List.mem_cons_of_mem _ hd)
  · intro b hb
    exact Function.update_of_ne (by simp at hb; exact hb.1) ..

section Behind

variable {b : Addr × Int32}

/-- Two neighbours are no other cells of the list. -/
theorem HeaderHolds.ne_neighbours (hh : HeaderHolds m h l (cs₁ ++ b :: c :: cs₂)) :
    b.1 ≠ c.1 ∧ ∀ d ∈ cs₁ ++ cs₂, d.1 ≠ b.1 ∧ d.1 ≠ c.1 := by
  have hnodup := hh.chain.nodup
  simp only [List.map_append, List.map_cons, List.nodup_append, List.nodup_cons, List.mem_cons,
    not_or] at hnodup
  obtain ⟨_, ⟨⟨hbc, hb₂⟩, hc₂, _⟩, hcross⟩ := hnodup
  refine ⟨hbc, ?_⟩
  intro d hd
  rcases List.mem_append.mp hd with hd | hd
  · have hd := hcross d.1 (List.mem_map_of_mem hd)
    exact ⟨hd b.1 (.inl rfl), hd c.1 (.inr (.inl rfl))⟩
  · have hd := List.mem_map_of_mem (f := Prod.fst) hd
    exact ⟨fun heq => hb₂ (heq ▸ hd), fun heq => hc₂ (heq ▸ hd)⟩

theorem HeaderHolds.links_neighbours (hh : HeaderHolds m h l (cs₁ ++ b :: c :: cs₂)) :
    h.links b.1 = some (some c.1) ∧ h.links c.1 = some (cs₂.map Prod.fst).head? := by
  have hchain := hh.chain
  simp only [List.map_append, List.map_cons] at hchain
  exact ⟨hchain.link_eq, Seg.link_eq (l := cs₁.map Prod.fst ++ [b.1]) (by simpa using hchain)⟩

/-- The tail moves to `prev` if the cell deleted was the last. -/
theorem HeaderHolds.tail_unlink (hh : HeaderHolds m h l (cs₁ ++ b :: c :: cs₂)) :
    (if l.tail = some c.1 then some b.1 else l.tail) =
      ((cs₁ ++ b :: cs₂).map Prod.fst).getLast? := by
  have hlast := hh.tail
  rcases List.eq_nil_or_concat cs₂ with rfl | ⟨init, d, hd⟩
  · simp [hlast]
  · have hdc : d.1 ≠ c.1 := (hh.ne_neighbours.2 d (by simp [hd])).2
    simp [hlast, hd, hdc, List.getLast?_cons]

/-- A cell is taken out from between its neighbours. -/
theorem HeaderHolds.unlink {h' : Heap} (hh : HeaderHolds m h l (cs₁ ++ b :: c :: cs₂))
    (hkeep : ∀ d ∈ cs₁ ++ cs₂, h'.cells d.1 = h.cells d.1)
    (hb : h'.cells b.1 = some (m, ⟨some b.2, (cs₂.map Prod.fst).head?⟩)) :
    HeaderHolds m h'
      { l with length := l.length - 1, tail := if l.tail = some c.1 then some b.1 else l.tail }
      (cs₁ ++ b :: cs₂) := by
  refine ⟨hh.type, ?_, hh.tail_unlink, ?_, ?_⟩
  · simp [hh.length]
    omega
  · have hchain := hh.chain
    simp only [List.map_append, List.map_cons] at hchain ⊢
    refine hchain.unlink (links_congr fun d hd => hkeep d (List.mem_append_left _ hd))
      (links_congr fun d hd => hkeep d (List.mem_append_right _ hd)) ?_
    rw [hh.links_neighbours.2, Heap.links, hb]
    rfl
  · intro d hd
    by_cases hdb : d = b
    · rw [hdb]
      exact ⟨_, hb⟩
    · have hd' : d ∈ cs₁ ++ cs₂ := by simpa [hdb] using hd
      rw [hkeep d hd']
      exact hh.data d (by simp at hd' ⊢; tauto)

/-- An element behind another one. -/
theorem listDeleteCellWith_behind (hl : h.lists a = some (m, l))
    (hh : HeaderHolds m h l (cs₁ ++ b :: c :: cs₂)) :
    ∃ h', listDeleteCellWith m h (some a) (some c.1) (some b.1) = .ok (h', some a) ∧
      Holds m h' (some a) (cs₁ ++ b :: cs₂) ∧ h'.cells c.1 = none ∧
      OnlyTouches h h' ((cs₁ ++ b :: c :: cs₂).map Prod.fst) (some a) := by
  obtain ⟨_, hb⟩ := hh.data b (by simp)
  obtain ⟨_, hc⟩ := hh.data c (by simp)
  obtain ⟨hbc, hothers⟩ := hh.ne_neighbours
  obtain ⟨hlinkb, hlinkc⟩ := hh.links_neighbours
  let next := (cs₂.map Prod.fst).head?
  let tail := if l.tail = some c.1 then some b.1 else l.tail
  let h' : Heap :=
    { cells := Function.update (Function.update h.cells b.1 (some (m, ⟨some b.2, next⟩))) c.1 none
      lists := Function.update h.lists a
        (some (m, { l with length := l.length - 1, tail := tail })) }
  have hcells : ∀ d, d ≠ b.1 → d ≠ c.1 → h'.cells d = h.cells d := by
    intro d hdb hdc
    simp [h', hdb, hdc]
  have hkeep : ∀ d ∈ cs₁ ++ cs₂, h'.cells d.1 = h.cells d.1 :=
    fun d hd => hcells d.1 (hothers d hd).1 (hothers d hd).2
  refine ⟨h', ?_, ?_, Function.update_self .., .of_cells ?_⟩
  · have hlen : l.length ≠ 1 := by
      have := hh.length
      simp at this
      omega
    have hprev : lnext h (some b.1) = .ok (some c.1) := lnext_eq hlinkb
    have hnext : ∀ lists, lnext { h with lists := lists } (some c.1) = .ok next :=
      fun lists => lnext_eq hlinkc
    have hcheck := (Holds.list (by simp) hl hh).check
    -- the store to `tail` is made or not
    by_cases htc : l.tail = some c.1 <;>
      simp [listDeleteCellWith, hcheck, hprev, assertThat, Heap.header, Heap.updateHeader,
        Heap.updateCell, Heap.freeCell, hl, hlen, hnext, htc, hb, hc, hbc.symm, ok_bind,
        pure_eq_ok, h', tail]
  · exact .list (by simp) (Function.update_self ..) (hh.unlink hkeep (by simp [h', hbc, next]))
  · intro d hd
    refine hcells d ?_ ?_ <;> rintro rfl <;> simp at hd

end Behind

/-- Deleting a cell, named together with its true predecessor, deletes it from the cells
of the list.  When it was the only one the list is `NIL` and the header is gone. -/
theorem Holds.delete {p : Option Addr} (hh : Holds m h p (cs₁ ++ c :: cs₂)) :
    ∃ h' p', listDeleteCellWith m h p (some c.1) (cs₁.map Prod.fst).getLast? = .ok (h', p') ∧
      Holds m h' p' (cs₁ ++ cs₂) ∧ h'.cells c.1 = none ∧
      (p' = p ∨ p' = none ∧ ∀ a, p = some a → h'.lists a = none) ∧
      OnlyTouches h h' ((cs₁ ++ c :: cs₂).map Prod.fst) p := by
  generalize hcs : cs₁ ++ c :: cs₂ = cs at hh
  cases hh with
  | nil => simp at hcs
  | @list a l cs _ hl hh =>
      subst hcs
      rcases List.eq_nil_or_concat cs₁ with rfl | ⟨init, b, hinit⟩
      · cases cs₂ with
        | nil =>
            obtain ⟨h', hrun, hcell, hlist, htouch⟩ := listDeleteCellWith_only hl hh
            refine ⟨h', none, hrun, .nil, hcell, .inr ⟨rfl, ?_⟩, htouch⟩
            rintro _ ⟨⟩
            exact hlist
        | cons d cs₂ =>
            obtain ⟨h', hrun, hholds, hcell, htouch⟩ := listDeleteCellWith_head (by simp) hl hh
            exact ⟨h', some a, hrun, hholds, hcell, .inl rfl, htouch⟩
      · rw [List.concat_eq_append] at hinit
        subst hinit
        rw [List.append_assoc, List.singleton_append] at hh
        obtain ⟨h', hrun, hholds, hcell, htouch⟩ := listDeleteCellWith_behind hl hh
        refine ⟨h', some a, ?_, ?_, hcell, .inl rfl, ?_⟩
        · simpa using hrun
        · simpa using hholds
        · simpa using htouch

end Deleting

end BullFrog
