/-
# `BullFrog.Executor.Filter` — what a scan in migration mode returns

`MigrateTuple` changes the bitmap that decides its next answers, so a scan in migration
mode is a filter with a memory.  Nevertheless what it does can be read off the stream
and the bitmap at the start.  An occurrence of a tuple in the stream is

* *claimed* if both bits of the tuple were clear at the start and the tuple has not
  occurred before;
* *awaited* if it is not claimed and its migrate bit was clear at the start.

`after g q` is the state computed in this way from the stretch `q` of the stream
already gone through.  Offering one more tuple leads from `after g q` to
`after g (q ++ [t])` (`offer_after`), and the pass over the whole stream follows by
induction (`sweep_after`).
-/
import BullFrog.Executor.Drain

namespace BullFrog

/-! ## Occurrences -/

/-- The elements of a list, each with the elements before it. -/
def withBefore {α : Type} : List α → List α → List (List α × α)
  | _, [] => []
  | before, a :: l => (before, a) :: withBefore (before ++ [a]) l

theorem withBefore_append {α : Type} (before l m : List α) :
    withBefore before (l ++ m) = withBefore before l ++ withBefore (before ++ l) m := by
  induction l generalizing before with
  | nil => simp [withBefore]
  | cons a l ih => simp [withBefore, ih]

section Occurrences

variable {R : Type} (s : Eid → Status)

/-- The first occurrence of a tuple whose bits `s` are both clear. -/
def firstClear (o : List (HeapTuple R) × HeapTuple R) : Bool :=
  decide (s o.2.tSelf.eid = ⟨false, false⟩) && o.1.all fun u => u.tSelf.eid != o.2.tSelf.eid

/-- Any other occurrence of a tuple that is not migrated. -/
def otherUnmigrated (o : List (HeapTuple R) × HeapTuple R) : Bool :=
  !firstClear s o && !(s o.2.tSelf.eid).migrate

/-- The claimed occurrences of `q`, in order, when `before` has been gone through. -/
def claimedFrom (before q : List (HeapTuple R)) : List (HeapTuple R) :=
  ((withBefore before q).filter (firstClear s)).map Prod.snd

/-- The awaited ones. -/
def awaitedFrom (before q : List (HeapTuple R)) : List (HeapTuple R) :=
  ((withBefore before q).filter (otherUnmigrated s)).map Prod.snd

variable {s}

theorem claimedFrom_cons (before : List (HeapTuple R)) (t : HeapTuple R) (q : List (HeapTuple R)) :
    claimedFrom s before (t :: q) =
      if firstClear s (before, t) then t :: claimedFrom s (before ++ [t]) q
      else claimedFrom s (before ++ [t]) q := by
  cases h : firstClear s (before, t) <;> simp [claimedFrom, withBefore, h]

theorem claimedFrom_concat (q : List (HeapTuple R)) (t : HeapTuple R) :
    claimedFrom s [] (q ++ [t]) =
      claimedFrom s [] q ++ if firstClear s (q, t) then [t] else [] := by
  cases h : firstClear s (q, t) <;> simp [claimedFrom, withBefore_append, withBefore, h]

theorem awaitedFrom_concat (q : List (HeapTuple R)) (t : HeapTuple R) :
    awaitedFrom s [] (q ++ [t]) =
      awaitedFrom s [] q ++ if otherUnmigrated s (q, t) then [t] else [] := by
  cases h : otherUnmigrated s (q, t) <;> simp [awaitedFrom, withBefore_append, withBefore, h]

theorem firstClear_iff (before : List (HeapTuple R)) (t : HeapTuple R) :
    firstClear s (before, t) = true ↔
      s t.tSelf.eid = ⟨false, false⟩ ∧ t.tSelf.eid ∉ before.map (·.tSelf.eid) := by
  simp [firstClear]

/-- The claimed tuples are those that occur, were clear and have not occurred before. -/
theorem mem_claimedFrom_eid (e : Eid) (before q : List (HeapTuple R)) :
    e ∈ (claimedFrom s before q).map (·.tSelf.eid) ↔
      s e = ⟨false, false⟩ ∧ e ∉ before.map (·.tSelf.eid) ∧ e ∈ q.map (·.tSelf.eid) := by
  induction q generalizing before with
  | nil => simp [claimedFrom, withBefore]
  | cons t q ih =>
      rw [claimedFrom_cons]
      by_cases he : e = t.tSelf.eid
      · subst he
        have hlater := ih (before ++ [t])
        split
        · rename_i hfirst
          simpa using (firstClear_iff before t).mp hfirst
        · rename_i hfirst
          rw [firstClear_iff] at hfirst
          rw [hlater]
          simp only [List.map_append, List.map_cons, List.mem_append, List.mem_cons, true_or,
            or_true, not_true, false_and, and_false, false_iff, and_true, List.map_nil]
          exact hfirst
      · have hlater := ih (before ++ [t])
        simp only [List.map_append, List.mem_append, List.map_cons, List.map_nil,
          List.mem_singleton, he, or_false] at hlater
        split <;> simp only [List.map_cons, List.mem_cons, he, false_or] <;> exact hlater

end Occurrences

/-! ## The state after a stretch of the stream -/

namespace Globals

variable {R : Type} {g : Globals}

/-- The globals after the tuples `q` have been offered, computed from `q` and the start. -/
def after (g : Globals) (q : List (HeapTuple R)) : Globals :=
  let mine := claimedFrom (statusOf g.partialBitmap) [] q
  { g with
    partialBitmap := (mine.map (·.tSelf.eid)).foldl setlockbit g.partialBitmap
    inProgLocalList0 := g.inProgLocalList0 ++ mine.map (·.tSelf.eid.toInt32)
    inProgLocalList1 := g.inProgLocalList1 ++
      (awaitedFrom (statusOf g.partialBitmap) [] q).map (·.tSelf.eid.toInt32)
    tuplemigratecount := g.tuplemigratecount + mine.length }

theorem after_nil : g.after ([] : List (HeapTuple R)) = g := by
  simp [after, claimedFrom, awaitedFrom, withBefore]

/-- The bits of a tuple after `q`: its migrate bit is as at the start, and its lock bit
is set if it was, or if the tuple was clear and occurs in `q`. -/
theorem statusOf_after (q : List (HeapTuple R)) (e : Eid) :
    statusOf (g.after q).partialBitmap e =
      if statusOf g.partialBitmap e = ⟨false, false⟩ ∧ e ∈ q.map (·.tSelf.eid) then ⟨true, false⟩
      else statusOf g.partialBitmap e := by
  simp only [after, statusOf_foldl_setlockbit, mem_claimedFrom_eid, List.map_nil,
    List.not_mem_nil, not_false_eq_true, true_and]
  split
  · rename_i h
    rw [h.1]
  · rfl

/-- How `after` grows with the stretch. -/
theorem after_concat (q : List (HeapTuple R)) (t : HeapTuple R) :
    g.after (q ++ [t]) =
      if firstClear (statusOf g.partialBitmap) (q, t) then
        { g.after q with
          partialBitmap := setlockbit (g.after q).partialBitmap t.tSelf.eid
          inProgLocalList0 := (g.after q).inProgLocalList0 ++ [t.tSelf.eid.toInt32]
          tuplemigratecount := (g.after q).tuplemigratecount + 1 }
      else if (statusOf g.partialBitmap t.tSelf.eid).migrate then g.after q
      else
        { g.after q with
          inProgLocalList1 := (g.after q).inProgLocalList1 ++ [t.tSelf.eid.toInt32] } := by
  cases hfirst : firstClear (statusOf g.partialBitmap) (q, t) with
  | true =>
      simp [after, claimedFrom_concat, awaitedFrom_concat, otherUnmigrated, hfirst, Nat.add_assoc]
  | false =>
      cases hm : (statusOf g.partialBitmap t.tSelf.eid).migrate <;>
        simp [after, claimedFrom_concat, awaitedFrom_concat, otherUnmigrated, hfirst, hm]

/-- One step: one more tuple is offered. -/
theorem offer_after (hflag : g.migrateflag = true) (q : List (HeapTuple R)) {t : HeapTuple R}
    (hlen : t.tLen ≠ 0) :
    (g.after q).offer t =
      (firstClear (statusOf g.partialBitmap) (q, t), g.after (q ++ [t])) := by
  have hafter := statusOf_after (g := g) q t.tSelf.eid
  have hfirst := firstClear_iff (s := statusOf g.partialBitmap) q t
  rw [after_concat]
  rcases offer_cases (g := g.after q) (t := t) hflag with
    ⟨hl, _⟩ | ⟨_, hs, ho⟩ | ⟨_, hs, hl, ho⟩ | ⟨_, hs, ho⟩
  · exact absurd hl hlen
  · -- migrated: so it was at the start
    rw [hafter] at hs
    split at hs
    · cases hs
    · have hnot : firstClear (statusOf g.partialBitmap) (q, t) = false := by
        rw [Bool.eq_false_iff, Ne, hfirst]
        rintro ⟨hc, _⟩
        simp [hc] at hs
      rw [ho, hnot, if_neg (by decide), if_pos hs]
  · -- locked: at the start, or by an earlier occurrence
    have hm : (statusOf g.partialBitmap t.tSelf.eid).migrate = false := by
      rw [hafter] at hs
      split at hs
      · rename_i h
        rw [h.1]
      · exact hs
    have hnot : firstClear (statusOf g.partialBitmap) (q, t) = false := by
      rw [Bool.eq_false_iff, Ne, hfirst]
      rintro ⟨hc, hnew⟩
      rw [hafter, if_neg (fun h => hnew h.2), hc] at hl
      cases hl
    rw [ho, hnot, if_neg (by decide), if_neg (by simp [hm])]
  · -- clear: so it was at the start, and it has not occurred
    have hyes : firstClear (statusOf g.partialBitmap) (q, t) = true := by
      rw [hfirst]
      rw [hafter] at hs
      split at hs
      · cases hs
      · rename_i h
        exact ⟨hs, fun hq => h ⟨hs, hq⟩⟩
    rw [ho, hyes, if_pos rfl]

end Globals

/-! ## The whole stream -/

namespace ScanNode

variable {R P : Type} {node : ScanNode R P} {g : Globals}

/-- The tuples of a stream that pass the qual. -/
def qualifying (node : ScanNode R P) (ts : List (HeapTuple R)) : List (HeapTuple R) :=
  ts.filter fun t => node.passes (.heap t)

/-- The slots in which tuples are returned. -/
def slots (node : ScanNode R P) (ts : List (HeapTuple R)) : List (ResultSlot R P) :=
  ts.map fun t => (node.result (.heap t)).slot

theorem qualifying_cons (t : HeapTuple R) (ts : List (HeapTuple R)) :
    node.qualifying (t :: ts) =
      if node.passes (.heap t) then t :: node.qualifying ts else node.qualifying ts :=
  List.filter_cons

/-- A pass that has gone through `q` and has `ts` before it. -/
theorem sweep_after (hflag : g.migrateflag = true) (ts : List (HeapTuple R))
    (hlen : ∀ t ∈ ts, t.tLen ≠ 0) (q : List (HeapTuple R)) :
    node.sweep (g.after q) ts =
      (node.slots (claimedFrom (statusOf g.partialBitmap) q (node.qualifying ts)),
        g.after (q ++ node.qualifying ts)) := by
  induction ts generalizing q with
  | nil => simp [sweep, slots, qualifying, claimedFrom, withBefore]
  | cons t ts ih =>
      have ih := ih fun u hu => hlen u (List.mem_cons_of_mem _ hu)
      cases hp : node.passes (.heap t) with
      | false => rw [sweep_skip hp, ih, qualifying_cons, hp, if_neg (by decide)]
      | true =>
          rw [sweep_cons hp, Globals.offer_after hflag q (hlen t List.mem_cons_self), ih,
            qualifying_cons, hp, if_pos rfl, claimedFrom_cons]
          cases firstClear (statusOf g.partialBitmap) (q, t) <;> simp [slots]

/-- Outside migration mode every tuple that passes the qual is returned. -/
theorem sweep_of_flag_eq_false (hflag : g.migrateflag = false) (ts : List (HeapTuple R)) :
    node.sweep g ts = (node.slots (node.qualifying ts), g) := by
  induction ts with
  | nil => rfl
  | cons t ts ih =>
      cases hp : node.passes (.heap t) with
      | false => rw [sweep_skip hp, ih, qualifying_cons, hp, if_neg (by decide)]
      | true =>
          rw [sweep_cons hp, Globals.offer_of_flag_eq_false hflag, ih, qualifying_cons, hp,
            if_pos rfl]
          rfl

/-- Draining a node with a qual or a projection.  In migration mode the claimed
occurrences come back in the order of the stream, the bitmap gains their lock bits and
nothing else, and the two lists and the counter say what has been claimed and what is
to be waited for.  Outside migration mode every qualifying tuple comes back and nothing
changes. -/
theorem drain_returns_claimed (node : ScanNode R P)
    (hnode : node.qual.isSome ∨ node.projInfo.isSome) (stream : List (HeapTuple R))
    (hlen : ∀ t ∈ stream, 0 < t.tLen) (g : Globals)
    (h0 : g.inProgLocalList0 = []) (h1 : g.inProgLocalList1 = []) :
    let q := node.qualifying stream
    let mine := claimedFrom (statusOf g.partialBitmap) [] q
    (g.migrateflag = true → ∃ g',
      node.drain g (stream.map .heap) = .ok (node.slots mine, g') ∧
      g'.partialBitmap = (mine.map (·.tSelf.eid)).foldl setlockbit g.partialBitmap ∧
      (∀ e, statusOf g'.partialBitmap e =
        if e ∈ mine.map (·.tSelf.eid) then { statusOf g.partialBitmap e with lock := true }
        else statusOf g.partialBitmap e) ∧
      g'.inProgLocalList0 = mine.map (·.tSelf.eid.toInt32) ∧
      g'.inProgLocalList1 =
        (awaitedFrom (statusOf g.partialBitmap) [] q).map (·.tSelf.eid.toInt32) ∧
      g'.tuplemigratecount = g.tuplemigratecount + g'.inProgLocalList0.length ∧
      g'.migrateflag = true) ∧
    (g.migrateflag = false → node.drain g (stream.map .heap) = .ok (node.slots q, g)) := by
  intro q mine
  constructor
  · intro hflag
    have hlen : ∀ t ∈ stream, t.tLen ≠ 0 := by
      intro t ht hzero
      have := hlen t ht
      rw [hzero] at this
      exact absurd this (by decide)
    have hsweep : node.sweep (g.after []) stream = _ := sweep_after hflag stream hlen []
    rw [Globals.after_nil] at hsweep
    refine ⟨g.after q, ?_, rfl, ?_, ?_, ?_, ?_, hflag⟩
    · rw [drain_eq_sweep hnode, hsweep]
      rfl
    · intro e
      exact statusOf_foldl_setlockbit _ _ e
    · simp [Globals.after, h0, mine]
    · simp [Globals.after, h1]
    · simp [Globals.after, h0]
  · intro hflag
    rw [drain_eq_sweep hnode, sweep_of_flag_eq_false hflag]

/-- Tuple 1 is locked by somebody else and tuple 2 occurs twice; tuple 7 fails the qual. -/
theorem drain_returns_claimed_of_four :
    let node : ScanNode Nat Nat := ⟨some (· < 7), some (· + 100)⟩
    let tuple (n : Nat) : HeapTuple Nat := ⟨40, ⟨0, UInt16.ofNat (n + 1)⟩, n⟩
    let g : Globals := ⟨true, setlockbit (fun _ => 0) 1, [], [], 5⟩
    ∃ g', node.drain g (([1, 2, 7, 2].map tuple).map .heap) = .ok ([.projected 102], g') ∧
      g'.partialBitmap 0 = 0b10100#64 ∧ g'.inProgLocalList0 = [2] ∧
      g'.inProgLocalList1 = [1, 2] ∧ g'.tuplemigratecount = 6 := by
  intro node tuple g
  obtain ⟨g', hdrain, hbitmap, _, hlist0, hlist1, hcount, _⟩ :=
    (drain_returns_claimed node (by decide) ([1, 2, 7, 2].map tuple) (by decide) g rfl rfl).1 rfl
  refine ⟨g', ?_, ?_, ?_, ?_, ?_⟩
  · rw [hdrain]
    exact congrArg (fun l => Except.ok (l, g')) (by decide)
  · rw [hbitmap]
    decide
  · rw [hlist0]
    decide
  · rw [hlist1]
    decide
  · rw [hcount, hlist0]
    decide

end ScanNode

end BullFrog
