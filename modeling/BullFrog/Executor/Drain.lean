/-
# `BullFrog.Executor.Drain` — calling `ExecScan` until it returns an empty slot

Draining a scan node is a loop over calls, each of which is a loop over rows.  On heap
tuples the two collapse into one pass over the stream, `sweep`, in which every tuple
that passes the qual is offered to `MigrateTuple` once:

| node | drain |
| :-- | :-- |
| with a qual or a projection | `sweep` (`drain_eq_sweep`) |
| with neither | `sweep`, unless the last tuple is returned (`drain_shortcut`) |

The second row is the shortcut at the top of `ExecScan`.  It hands the slot it has
fetched to `MigrateTuple` without asking whether the slot is empty.  A call that starts
at the end of the stream therefore reads `t_len` of a tuple that is not there, and
there is such a call exactly when the stream is empty or its last tuple was returned.
-/
import BullFrog.Executor.Scan

namespace BullFrog

/-! ## One tuple -/

namespace Globals

variable {R : Type} {g : Globals} {t : HeapTuple R} {e : Eid}

/-- What `ExecScan` does with a heap tuple that passes the qual: whether it returns it,
and the globals afterwards. -/
def offer (g : Globals) (t : HeapTuple R) : Bool × Globals :=
  if g.migrateflag then
    if t.tLen = 0 then (true, g.counted)
    else
      match g.claim t.tSelf.eid with
      | (true, g) => (true, g.counted)
      | (false, g) => (false, g)
  else (true, g)

theorem offer_of_flag_eq_false (h : g.migrateflag = false) : g.offer t = (true, g) := by
  simp [offer, h]

/-- In migration mode: the four ways a tuple can be met. -/
theorem offer_cases (h : g.migrateflag = true) :
    (t.tLen = 0 ∧ g.offer t = (true, g.counted)) ∨
    (t.tLen ≠ 0 ∧ (statusOf g.partialBitmap t.tSelf.eid).migrate = true ∧
      g.offer t = (false, g)) ∨
    (t.tLen ≠ 0 ∧ (statusOf g.partialBitmap t.tSelf.eid).migrate = false ∧
      (statusOf g.partialBitmap t.tSelf.eid).lock = true ∧
      g.offer t = (false,
        { g with inProgLocalList1 := g.inProgLocalList1 ++ [t.tSelf.eid.toInt32] })) ∨
    (t.tLen ≠ 0 ∧ statusOf g.partialBitmap t.tSelf.eid = ⟨false, false⟩ ∧
      g.offer t = (true, { g with
        partialBitmap := setlockbit g.partialBitmap t.tSelf.eid,
        inProgLocalList0 := g.inProgLocalList0 ++ [t.tSelf.eid.toInt32],
        tuplemigratecount := g.tuplemigratecount + 1 })) := by
  by_cases hlen : t.tLen = 0
  · exact .inl ⟨hlen, by simp [offer, h, hlen]⟩
  refine .inr ?_
  rcases claim_cases g t.tSelf.eid with ⟨hm, hc⟩ | ⟨hm, hl, hc⟩ | ⟨hs, hc⟩
  · exact .inl ⟨hlen, hm, by simp [offer, h, hlen, hc]⟩
  · exact .inr (.inl ⟨hlen, hm, hl, by simp [offer, h, hlen, hc]⟩)
  · exact .inr (.inr ⟨hlen, hs, by simp [offer, h, hlen, hc, counted]⟩)

theorem offer_migrateflag : (g.offer t).2.migrateflag = g.migrateflag := by
  cases h : g.migrateflag with
  | false => rw [offer_of_flag_eq_false h, h]
  | true =>
      rcases offer_cases (t := t) h with ⟨_, h'⟩ | ⟨_, _, h'⟩ | ⟨_, _, _, h'⟩ | ⟨_, _, h'⟩ <;>
        rw [h'] <;> exact h

/-- A tuple is returned if it has no length or if nobody has claimed it. -/
theorem offer_fst (h : g.migrateflag = true) :
    (g.offer t).1 = true ↔ t.tLen = 0 ∨ statusOf g.partialBitmap t.tSelf.eid = ⟨false, false⟩ := by
  rcases offer_cases (t := t) h with
    ⟨hl, h'⟩ | ⟨hl, hs, h'⟩ | ⟨hl, _, hs, h'⟩ | ⟨hl, hs, h'⟩ <;> simp only [h', hl, true_or,
      false_or, true_iff, Bool.false_eq_true, false_iff]
  · intro hc
    simp [hc] at hs
  · intro hc
    simp [hc] at hs
  · exact hs

/-- A tuple is clear after an offer if it was before and is not the one offered. -/
theorem clear_offer (h : g.migrateflag = true) :
    statusOf (g.offer t).2.partialBitmap e = ⟨false, false⟩ ↔
      statusOf g.partialBitmap e = ⟨false, false⟩ ∧ (t.tLen ≠ 0 → t.tSelf.eid ≠ e) := by
  rcases offer_cases (t := t) h with
    ⟨hl, h'⟩ | ⟨hl, hs, h'⟩ | ⟨hl, _, hs, h'⟩ | ⟨hl, hs, h'⟩ <;> rw [h']
  · simp [hl, counted]
  · refine ⟨fun hc => ⟨hc, fun _ he => ?_⟩, And.left⟩
    subst he
    simp [hc] at hs
  · refine ⟨fun hc => ⟨hc, fun _ he => ?_⟩, And.left⟩
    subst he
    simp [hc] at hs
  · by_cases he : e = t.tSelf.eid
    · subst he
      simp [statusOf_setlockbit, hl]
    · simp [statusOf_setlockbit, he, Ne.symm he]

end Globals

/-! ## One pass -/

namespace ScanNode

variable {R P : Type} {node : ScanNode R P} {g : Globals}

/-- One pass over a stream of heap tuples. -/
def sweep (node : ScanNode R P) : Globals → List (HeapTuple R) → List (ResultSlot R P) × Globals
  | g, [] => ([], g)
  | g, t :: ts =>
      if node.passes (.heap t) then
        match g.offer t with
        | (true, g) =>
            let (slots, g) := node.sweep g ts
            ((node.result (.heap t)).slot :: slots, g)
        | (false, g) => node.sweep g ts
      else node.sweep g ts

/-- What `drainWithin` makes of the outcome of a call, with `calls` further calls. -/
def resume (node : ScanNode R P) (calls : Nat) :
    Option (Option (Returned R P) × Globals × List (Row R)) →
      Except Stop (List (ResultSlot R P) × Globals)
  | none => .error .absentTuple
  | some (none, g, _) => .ok ([], g)
  | some (some r, g, rest) =>
      (node.drainWithin calls g rest).map fun (slots, g) => (r.slot :: slots, g)

theorem drainWithin_succ (calls : Nat) (rows : List (Row R)) :
    node.drainWithin (calls + 1) g rows = node.resume calls (node.execScan g rows) := rfl

/-- One round of the loop on a slot with a physical tuple whose row passes the qual. -/
theorem execScanLoop_tuple {r : Row R} {t : HeapTuple R} (h : node.passes r = true)
    (ht : r.ttsTuple = some t) (rest : List (Row R)) :
    node.execScanLoop g (r :: rest) =
      match g.offer t with
      | (true, g) => some (some (node.result r), g, rest)
      | (false, g) => node.execScanLoop g rest := by
  cases hflag : g.migrateflag with
  | false => simp [execScanLoop, Globals.offer, h, hflag]
  | true =>
      by_cases hlen : t.tLen = 0
      · simp [execScanLoop, Globals.offer, Globals.migrateTuple, ht, h, hflag, hlen]
      · rcases hc : g.claim t.tSelf.eid with ⟨b, g'⟩
        cases b <;>
          simp [execScanLoop, Globals.offer, Globals.migrateTuple, ht, h, hflag, hlen, hc]

theorem execScanLoop_skip {t : HeapTuple R} (h : node.passes (.heap t) = false)
    (rest : List (Row R)) :
    node.execScanLoop g (.heap t :: rest) = node.execScanLoop g rest := by
  simp [execScanLoop, h]

theorem sweep_cons {t : HeapTuple R} (h : node.passes (.heap t) = true) (ts : List (HeapTuple R)) :
    node.sweep g (t :: ts) =
      if (g.offer t).1 then
        ((node.result (.heap t)).slot :: (node.sweep (g.offer t).2 ts).1,
          (node.sweep (g.offer t).2 ts).2)
      else node.sweep (g.offer t).2 ts := by
  rcases ho : g.offer t with ⟨b, g'⟩
  cases b <;> simp [sweep, h, ho]

theorem sweep_skip {t : HeapTuple R} (h : node.passes (.heap t) = false)
    (ts : List (HeapTuple R)) : node.sweep g (t :: ts) = node.sweep g ts := by
  simp [sweep, h]

/-! ## A node with a qual or a projection -/

theorem execScan_eq_loop (hnode : node.qual.isSome ∨ node.projInfo.isSome) (rows : List (Row R)) :
    node.execScan g rows = node.execScanLoop g rows := by
  rcases hnode with h | h
  · simp [execScan, Option.isNone_eq_false_iff.mpr h]
  · simp [execScan, Option.isNone_eq_false_iff.mpr h]

/-- The rest of a drain, from inside a call. -/
theorem resume_execScanLoop (hnode : node.qual.isSome ∨ node.projInfo.isSome) :
    ∀ (ts : List (HeapTuple R)) (calls : Nat) (g : Globals), ts.length ≤ calls →
      node.resume calls (node.execScanLoop g (ts.map .heap)) = .ok (node.sweep g ts) := by
  intro ts
  induction ts with
  | nil =>
      intro calls g _
      rfl
  | cons t ts ih =>
      intro calls g hcalls
      obtain ⟨n, rfl⟩ : ∃ n, calls = n + 1 := ⟨calls - 1, by simp at hcalls; omega⟩
      have hn : ts.length ≤ n := by simpa using hcalls
      rw [List.map_cons]
      cases hp : node.passes (.heap t) with
      | false =>
          rw [execScanLoop_skip hp, sweep_skip hp]
          exact ih (n + 1) g (by omega)
      | true =>
          rw [execScanLoop_tuple hp rfl, sweep_cons hp]
          rcases g.offer t with ⟨b, g'⟩
          cases b with
          | false => exact ih (n + 1) g' (by omega)
          | true =>
              show (node.drainWithin (n + 1) g' (ts.map .heap)).map _ = _
              rw [drainWithin_succ, execScan_eq_loop hnode, ih n g' hn]
              rfl

/-- A node with a qual or a projection passes over its stream once. -/
theorem drain_eq_sweep (hnode : node.qual.isSome ∨ node.projInfo.isSome) (g : Globals)
    (ts : List (HeapTuple R)) : node.drain g (ts.map .heap) = .ok (node.sweep g ts) := by
  rw [drain, drainWithin_succ, execScan_eq_loop hnode]
  exact resume_execScanLoop hnode ts _ g (by simp)

end ScanNode

/-! ## The shortcut -/

namespace Globals

variable {R : Type} {g : Globals}

/-- The globals after all of a stream has been offered. -/
def offered (g : Globals) (ts : List (HeapTuple R)) : Globals :=
  ts.foldl (fun g t => (g.offer t).2) g

/-- Whether the last tuple of a stream is returned; `start` for the empty stream. -/
def endsReturned (g : Globals) (start : Bool) : List (HeapTuple R) → Bool
  | [] => start
  | t :: ts => endsReturned (g.offer t).2 (g.offer t).1 ts

theorem endsReturned_concat (g : Globals) (start : Bool) (ts : List (HeapTuple R))
    (t : HeapTuple R) : g.endsReturned start (ts ++ [t]) = ((g.offered ts).offer t).1 := by
  induction ts generalizing g start with
  | nil => rfl
  | cons u ts ih => exact ih _ _

theorem offered_migrateflag (ts : List (HeapTuple R)) :
    (g.offered ts).migrateflag = g.migrateflag := by
  induction ts generalizing g with
  | nil => rfl
  | cons t ts ih => exact ih.trans offer_migrateflag

/-- A tuple is clear after a stream if it was before and does not occur in it. -/
theorem clear_offered (hflag : g.migrateflag = true) (ts : List (HeapTuple R)) (e : Eid) :
    statusOf (g.offered ts).partialBitmap e = ⟨false, false⟩ ↔
      statusOf g.partialBitmap e = ⟨false, false⟩ ∧
        ∀ t ∈ ts, t.tLen ≠ 0 → t.tSelf.eid ≠ e := by
  induction ts generalizing g with
  | nil => simp [offered]
  | cons t ts ih =>
      have h := ih (g := (g.offer t).2) (offer_migrateflag.trans hflag)
      rw [clear_offer hflag] at h
      rw [show g.offered (t :: ts) = (g.offer t).2.offered ts from rfl, h, and_assoc,
        List.forall_mem_cons]

end Globals

namespace ScanNode

variable {R P : Type} {g : Globals}

/-- A node with neither a qual nor a projection. -/
def bare : ScanNode R P := ⟨none, none⟩

/-- A node with a qual that every row passes. -/
def alwaysTrue : ScanNode R P := ⟨some fun _ => true, none⟩

theorem sweep_alwaysTrue (g : Globals) (ts : List (HeapTuple R)) :
    (alwaysTrue : ScanNode R P).sweep g ts = (bare : ScanNode R P).sweep g ts := by
  induction ts generalizing g with
  | nil => rfl
  | cons t ts ih =>
      have hall : (alwaysTrue : ScanNode R P).passes (.heap t) = true := rfl
      have hbare : (bare : ScanNode R P).passes (.heap t) = true := rfl
      rw [sweep_cons hall, sweep_cons hbare, ih]
      rfl

/-- On a tuple the shortcut is a round of the loop. -/
theorem execScan_bare_heap (g : Globals) (t : HeapTuple R) (rest : List (Row R)) :
    (bare : ScanNode R P).execScan g (.heap t :: rest) =
      (bare : ScanNode R P).execScanLoop g (.heap t :: rest) := rfl

/-- At the end of the stream it is not. -/
theorem execScan_bare_nil (hflag : g.migrateflag = true) :
    (bare : ScanNode R P).execScan g [] = none := by
  simp [execScan, bare, hflag, Globals.migrateTuple]

/-- The rest of a drain, from the start of a call and from inside one. -/
theorem resume_bare (ts : List (HeapTuple R)) :
    ∀ (calls : Nat) (g : Globals), g.migrateflag = true → ts.length ≤ calls →
      (bare : ScanNode R P).resume calls (bare.execScan g (ts.map .heap)) =
        (if g.endsReturned true ts then .error .absentTuple else .ok (bare.sweep g ts)) ∧
      (bare : ScanNode R P).resume calls (bare.execScanLoop g (ts.map .heap)) =
        (if g.endsReturned false ts then .error .absentTuple else .ok (bare.sweep g ts)) := by
  induction ts with
  | nil =>
      intro calls g hflag _
      exact ⟨by rw [List.map_nil, execScan_bare_nil hflag]; rfl, rfl⟩
  | cons t ts ih =>
      intro calls g hflag hcalls
      obtain ⟨n, rfl⟩ : ∃ n, calls = n + 1 := ⟨calls - 1, by simp at hcalls; omega⟩
      have hn : ts.length ≤ n := by simpa using hcalls
      have hflag' : (g.offer t).2.migrateflag = true := Globals.offer_migrateflag.trans hflag
      have hpass : (bare : ScanNode R P).passes (.heap t) = true := rfl
      suffices round : (bare : ScanNode R P).resume (n + 1)
          (bare.execScanLoop g (.heap t :: ts.map .heap)) =
            if (g.offer t).2.endsReturned (g.offer t).1 ts then .error .absentTuple
            else .ok (bare.sweep g (t :: ts)) from
        ⟨by rw [List.map_cons, execScan_bare_heap, round]; rfl, round⟩
      rw [execScanLoop_tuple hpass rfl, sweep_cons hpass]
      rcases ho : g.offer t with ⟨b, g'⟩
      rw [ho] at hflag'
      cases b with
      | false => exact (ih (n + 1) g' hflag' (by omega)).2
      | true =>
          show ((bare : ScanNode R P).drainWithin (n + 1) g' (ts.map .heap)).map _ = _
          rw [drainWithin_succ, (ih n g' hflag' hn).1]
          cases g'.endsReturned true ts <;> simp [Except.map]

/-- A node with neither a qual nor a projection passes over its stream once, and
then fails if the last tuple was returned or there was none. -/
theorem drain_shortcut (hflag : g.migrateflag = true) (ts : List (HeapTuple R)) :
    (bare : ScanNode R P).drain g (ts.map .heap) =
      if g.endsReturned true ts then .error .absentTuple else .ok (bare.sweep g ts) := by
  rw [drain, drainWithin_succ]
  exact (resume_bare ts _ g hflag (by simp)).1

/-- The last tuple of a stream is returned, or there is none, unless it has a length and
is claimed or migrated at the start or claimed on the way to it. -/
theorem endsReturned_eq_false_iff (hflag : g.migrateflag = true) (stream : List (HeapTuple R)) :
    g.endsReturned true stream = false ↔
      ∃ init last, stream = init ++ [last] ∧ last.tLen ≠ 0 ∧
        (statusOf g.partialBitmap last.tSelf.eid ≠ ⟨false, false⟩ ∨
          ∃ t ∈ init, t.tLen ≠ 0 ∧ t.tSelf.eid = last.tSelf.eid) := by
  have answer : ∀ init (last : HeapTuple R), g.endsReturned true (init ++ [last]) = false ↔
      last.tLen ≠ 0 ∧ (statusOf g.partialBitmap last.tSelf.eid ≠ ⟨false, false⟩ ∨
        ∃ t ∈ init, t.tLen ≠ 0 ∧ t.tSelf.eid = last.tSelf.eid) := by
    intro init last
    rw [Globals.endsReturned_concat, Bool.eq_false_iff, Ne,
      Globals.offer_fst ((Globals.offered_migrateflag init).trans hflag),
      Globals.clear_offered hflag]
    simp only [not_or, not_and, not_forall, not_not, imp_iff_not_or]
  constructor
  · intro h
    rcases List.eq_nil_or_concat stream with rfl | ⟨init, last, hs⟩
    · cases h
    · rw [List.concat_eq_append] at hs
      subst hs
      exact ⟨init, last, rfl, (answer init last).mp h⟩
  · rintro ⟨init, last, rfl, h⟩
    exact (answer init last).mpr h

/-- The shortcut agrees with the loop, and reads no tuple that is not there, exactly if
the stream ends in a tuple that is not returned. -/
theorem drain_bare_eq_iff (g : Globals) (hflag : g.migrateflag = true)
    (stream : List (HeapTuple R)) :
    ((bare : ScanNode R P).drain g (stream.map .heap) = alwaysTrue.drain g (stream.map .heap) ∧
        (bare : ScanNode R P).drain g (stream.map .heap) ≠ .error .absentTuple) ↔
      ∃ init last, stream = init ++ [last] ∧ last.tLen ≠ 0 ∧
        (statusOf g.partialBitmap last.tSelf.eid ≠ ⟨false, false⟩ ∨
          ∃ t ∈ init, t.tLen ≠ 0 ∧ t.tSelf.eid = last.tSelf.eid) := by
  have hall : (alwaysTrue : ScanNode R P).drain g (stream.map .heap) =
      .ok ((bare : ScanNode R P).sweep g stream) := by
    rw [drain_eq_sweep (.inl rfl), sweep_alwaysTrue]
  rw [← endsReturned_eq_false_iff hflag, hall, drain_shortcut hflag]
  cases g.endsReturned true stream <;> simp

/-- A stream of two occurrences of one tuple, so that the last is not returned. -/
theorem drain_bare_eq_of_repeat :
    let g : Globals := ⟨true, fun _ => 0, [], [], 0⟩
    let t : HeapTuple Nat := ⟨40, ⟨0, 1⟩, 7⟩
    (bare : ScanNode Nat Nat).drain g [.heap t, .heap t] =
      alwaysTrue.drain g [.heap t, .heap t] := by
  intro g t
  exact ((drain_bare_eq_iff g rfl [t, t]).mpr
    ⟨[t], t, rfl, by decide, .inr ⟨t, List.mem_singleton.mpr rfl, by decide, rfl⟩⟩).1

/-- A table with a single tuple, which nobody has claimed: the second call of `ExecScan`
starts at the end of the scan. -/
theorem drain_bare_reads_absent_tuple :
    let g : Globals := ⟨true, fun _ => 0, [], [], 0⟩
    let t : HeapTuple Nat := ⟨40, ⟨0, 1⟩, 7⟩
    (bare : ScanNode Nat Nat).drain g [.heap t] = .error .absentTuple ∧
      ∃ g', (alwaysTrue : ScanNode Nat Nat).drain g [.heap t] = .ok ([.scan (.heap t)], g') :=
  ⟨rfl, _, rfl⟩

end ScanNode

end BullFrog
