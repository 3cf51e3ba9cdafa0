/-
# `BullFrog.Frontend.Messages` — the messages of one session

`PostgresMain` reads a message and calls its handler.  The handlers that matter to
the migration are modelled over the statements and portals of one session:

    exec_parse_message      makes a prepared statement
    exec_bind_message       makes a portal, and recognises the migration statements
    exec_execute_message    runs a portal
    exec_simple_query       makes and runs one unnamed portal per statement
    Close, Sync             drop a statement or portal, end the transaction command

A handler ends in one of three ways (`Outcome`): it returns, it raises an error,
or it calls `PortalRun`.  What happens inside `PortalRun` and `post_query_tasks` is
`Session.step`; the status bits it reads are part of the input, so the other
backends may have written anything.  An error may be raised wherever the code
can raise one (`Fault`, `Event.error`).  After an error in a message of the extended
protocol the messages up to the next Sync are skipped.

`N` is the type of the names, and `none` is the empty name.  The grammar is a
parameter.

Not modelled: cursors held over a transaction, SQL-level PREPARE and EXECUTE, and the
implicit transaction block of a Query with several statements, which is not told
apart from a started transaction.
-/
import BullFrog.Protocol.System

namespace BullFrog

/-! ## Texts, statements and portals -/

/-- A query string. -/
abbrev Text := List Char

/-- `strncmp(s, t, n) == 0`. -/
def strncmpEq (s t : Text) (n : Nat) : Bool := s.take n == t.take n

/-- The test of `exec_bind_message`: the bitmap of the migration statement `text` is. -/
def migrationOf (text : Text) : Option BitmapNum :=
  if strncmpEq text " insert into customer_proj1".toList 27 then some 0
  else if strncmpEq text " insert into customer_proj2".toList 27 then some 1
  else none

/-- A raw parse tree, as far as the handlers look at it. -/
inductive RawStmt where
  | transaction (x : XactStmt)
  /-- returns rows: every portal strategy but `PORTAL_MULTI_QUERY` -/
  | query
  /-- anything else -/
  | command
  deriving DecidableEq, Repr

/-- The transaction command a statement is. -/
def RawStmt.xactStmt : RawStmt → Option XactStmt
  | .transaction x => some x
  | _ => none

/-- `IsTransactionExitStmt`. -/
def RawStmt.isTransactionExit : RawStmt → Bool
  | .transaction .commit | .transaction .rollback => true
  | _ => false

/-- A prepared statement; the empty query string has no parse tree. -/
structure CachedPlanSource where
  queryString : Text
  rawParseTree : Option RawStmt
  deriving DecidableEq, Repr

/-- `PortalStatus`; `PORTAL_DEFINED` is never seen between two steps. -/
inductive PortalStatus where
  | new
  | ready
  | active
  | done
  | failed
  deriving DecidableEq, Repr

/-- A portal.  `boundFrom` is the text of the prepared statement a Bind made it from,
`commandTag` is false for `NULL`, and `stmts` is `none` for `NIL`. -/
structure Portal where
  boundFrom : Option Text
  commandTag : Bool
  stmts : Option RawStmt
  status : PortalStatus
  deriving DecidableEq, Repr

namespace Portal

/-- The migration the statement of the portal belongs to, if it is one of them. -/
def migration (p : Portal) : Option BitmapNum := p.boundFrom.bind migrationOf

/-- The portal after `PortalRun`: `PORTAL_READY` or, for `PORTAL_MULTI_QUERY`, done. -/
def returned (p : Portal) : Portal :=
  if p.status = .active then
    { p with status := if p.stmts = some .query then .ready else .done }
  else p

/-- The portal after the `PG_CATCH` of `PortalRun` and `AtAbort_Portals`, which gives
back the cached plan of a portal that was bound and its statement with it. -/
def aborted (p : Portal) : Portal :=
  { p with
    stmts := if p.boundFrom.isSome then none else p.stmts,
    status := if p.status = .active ∨ p.status = .ready then .failed else p.status }

/-- The transaction command the portal runs. -/
def xactStmt (p : Portal) : Option XactStmt := p.stmts.bind RawStmt.xactStmt

end Portal

/-- The portal a Bind makes. -/
def CachedPlanSource.portal (psrc : CachedPlanSource) (status : PortalStatus) : Portal :=
  ⟨some psrc.queryString, psrc.rawParseTree.isSome, psrc.rawParseTree, status⟩

/-! ## The state of a session and its inputs -/

/-- The state of a session between two steps. -/
structure Frontend (N : Type) where
  /-- the process globals of the migration and the transaction -/
  sess : Session := {}
  /-- `PartialBitmap` in words past `GlobalBitmap` -/
  partialBitmap : Option Nat := none
  prepared : N → Option CachedPlanSource := fun _ => none
  unnamedStmt : Option CachedPlanSource := none
  portals : Option N → Option Portal := fun _ => none
  ignoreTillSync : Bool := false
  doingExtendedQueryMessage : Bool := false
  /-- inside `exec_simple_query`, with the parse trees its loop has not reached -/
  inSimpleQuery : Bool := false
  parsetrees : List RawStmt := []

inductive Message (N : Type) where
  | parse (stmt : Option N) (text : Text)
  | bind (portal stmt : Option N)
  | execute (portal : Option N)
  | closeStatement (stmt : Option N)
  | closePortal (portal : Option N)
  | sync
  | query (text : Text)
  deriving DecidableEq, Repr

/-- Where a handler raises an error of its own.  The last two are for Bind. -/
inductive Fault where
  /-- before anything is made -/
  | early
  /-- between `CreatePortal` and `PortalDefineQuery` -/
  | created
  /-- in `PortalStart` or later -/
  | started
  deriving DecidableEq, Repr

inductive Event (N : Type) where
  /-- a message is read and handled, as far as its call of `PortalRun` -/
  | message (m : Message N) (fault : Option Fault)
  /-- the loop of `exec_simple_query` takes the next parse tree -/
  | nextStmt (fault : Option Fault)
  /-- `exec_simple_query` returns -/
  | endQuery
  /-- a step of the statement that is being run, or of the recovery after an error -/
  | run (a : Action)
  /-- an error is raised in a statement or between the statements of a Query -/
  | error (x : ErrorExit)
  deriving DecidableEq, Repr

/-- How a handler ends; the state is that at the return, the error or the call. -/
inductive Outcome (N : Type) where
  | done (f : Frontend N)
  | error (f : Frontend N) (x : ErrorExit)
  | portalRun (f : Frontend N) (name : Option N) (p : Portal)

/-- Everything but a simple Query and Sync sets `doing_extended_query_message`. -/
def Message.isExtended {N : Type} : Message N → Bool
  | .sync | .query _ => false
  | _ => true

def Message.isSync {N : Type} : Message N → Bool
  | .sync => true
  | _ => false

namespace Frontend

variable {N : Type}

/-! ## Transactions and portals -/

/-- `start_xact_command`. -/
def startXactCommand (f : Frontend N) : Frontend N :=
  { f with sess := { f.sess with xact := f.sess.xact.startTransactionCommand } }

/-- In an aborted block every statement but `COMMIT` and `ROLLBACK` is refused. -/
def refuses (f : Frontend N) (t : Option RawStmt) : Bool :=
  f.sess.xact.isAborted && !t.any RawStmt.isTransactionExit

/-- The portals after the end of a transaction command: a commit or a rollback
drops them all. -/
def portalsAtCommit (f : Frontend N) : Option N → Option Portal :=
  if f.sess.xact.commitTransactionCommand.2 = .pending then f.portals else fun _ => none

/-- The portals after `AbortCurrentTransaction`: they outlive a failed block until
its `ROLLBACK`, but cannot be run any more. -/
def portalsAtAbort (f : Frontend N) : Option N → Option Portal :=
  if f.sess.xact = .inprogress ∨ f.sess.xact = .abort then
    fun n => (f.portals n).map Portal.aborted
  else fun _ => none

/-- `finish_xact_command`. -/
def finishXactCommand (f : Frontend N) (bits : Key → Status) : Option (Frontend N) :=
  (f.sess.step bits .sync).map fun r => { f with sess := r.1, portals := f.portalsAtCommit }

/-- `ereport(ERROR)` and the recovery in `PostgresMain`. -/
def ereport (f : Frontend N) (bits : Key → Status) (x : ErrorExit) : Option (Frontend N) :=
  (f.sess.step bits (.error x)).map fun r =>
    { f with
      sess := r.1, portals := f.portalsAtAbort,
      ignoreTillSync := f.ignoreTillSync || f.doingExtendedQueryMessage,
      inSimpleQuery := false, parsetrees := [] }

section Handlers

variable [DecidableEq N]

/-- `CreatePortal` with what is put into it. -/
def setPortal (f : Frontend N) (name : Option N) (p : Option Portal) : Frontend N :=
  { f with portals := Function.update f.portals name p }

/-- `PortalRun`, up to the start of the executor. -/
def portalRun (f : Frontend N) (bits : Key → Status) (name : Option N) (p : Portal) :
    Option (Frontend N) :=
  -- `MarkPortalActive`
  if p.status = .ready then
    (f.sess.step bits (.execute p.xactStmt)).map fun r =>
      { f.setPortal name (some { p with status := .active }) with sess := r.1 }
  else f.ereport bits .execution

/-! ## The handlers -/

/-- `StorePreparedStatement`, or the assignment to `unnamed_stmt_psrc`. -/
def storeStatement (f : Frontend N) (psrc : CachedPlanSource) : Option N → Outcome N
  | none => .done { f with unnamedStmt := some psrc }
  | some n =>
      if (f.prepared n).isSome then .error f .bindCheck
      else .done { f with prepared := Function.update f.prepared n (some psrc) }

def dropStatement (f : Frontend N) : Option N → Frontend N
  | none => { f with unnamedStmt := none }
  | some n => { f with prepared := Function.update f.prepared n none }

def execParseMessage (parse : Text → Option (List RawStmt)) (f : Frontend N) (stmt : Option N)
    (text : Text) (fault : Option Fault) : Outcome N :=
  let f := f.startXactCommand
  let f := if stmt = none then f.dropStatement none else f
  match parse text, fault with
  | some [], none => f.storeStatement ⟨text, none⟩ stmt
  | some [t], none =>
      if f.refuses (some t) then .error f .bindCheck
      else f.storeStatement ⟨text, some t⟩ stmt
  -- a syntax error, several statements, or an error further on
  | _, _ => .error f .bindCheck

def fetchStatement (f : Frontend N) : Option N → Option CachedPlanSource
  | none => f.unnamedStmt
  | some n => f.prepared n

/-- The block of `exec_bind_message` that sets the migration mode, and
`start_xact_command` after it. -/
def recognise (f : Frontend N) (bits : Key → Status) (text : Text) : Option (Frontend N) :=
  match migrationOf text with
  | some k => (f.sess.step bits (.bind k)).map fun r =>
      { f with sess := r.1, partialBitmap := some (k * bitmapSize) }
  | none => some f.startXactCommand

def execBindMessage (f : Frontend N) (bits : Key → Status) (portal stmt : Option N)
    (fault : Option Fault) : Option (Outcome N) :=
  match f.fetchStatement stmt with
  | none => some (.error f .bindCheck)
  | some psrc => (f.recognise bits psrc.queryString).map fun f =>
      if fault = some .early ∨ f.refuses psrc.rawParseTree ∨
          (portal ≠ none ∧ (f.portals portal).isSome) then .error f .bindCheck
      else match fault with
        | some .created => .error (f.setPortal portal (some ⟨none, false, none, .new⟩)) .bindCheck
        | some _ => .error (f.setPortal portal (some (psrc.portal .failed))) .bindCheck
        | none => .done (f.setPortal portal (some (psrc.portal .ready)))

def execExecuteMessage (f : Frontend N) (portal : Option N) (fault : Option Fault) : Outcome N :=
  match f.portals portal with
  | none => .error f .bindCheck
  | some p =>
      if p.commandTag = false then .done f
      else if f.startXactCommand.refuses p.stmts ∨ fault.isSome then
        .error f.startXactCommand .queryCancel
      else .portalRun f.startXactCommand portal p

/-- `exec_simple_query` up to its loop. -/
def execSimpleQuery (parse : Text → Option (List RawStmt)) (f : Frontend N) (text : Text)
    (fault : Option Fault) : Outcome N :=
  let f := f.startXactCommand.dropStatement none
  match parse text, fault with
  | some trees, none => .done { f with inSimpleQuery := true, parsetrees := trees }
  | _, _ => .error f .bindCheck

/-- The loop body of `exec_simple_query` up to its call of `PortalRun`. -/
def nextStatement (f : Frontend N) (fault : Option Fault) : Option (Outcome N) :=
  match f.parsetrees with
  | [] => none
  | t :: rest =>
      let p : Portal := ⟨none, true, some t, .ready⟩
      if f.refuses (some t) ∨ fault.isSome then some (.error f .queryCancel)
      else some (.portalRun
        ({ f.startXactCommand with parsetrees := rest }.setPortal none (some p)) none p)

/-- A message that is not skipped. -/
def handle (parse : Text → Option (List RawStmt)) (f : Frontend N) (bits : Key → Status)
    (fault : Option Fault) : Message N → Option (Outcome N)
  | .parse stmt text => some (f.execParseMessage parse stmt text fault)
  | .bind portal stmt => f.execBindMessage bits portal stmt fault
  | .execute portal => some (f.execExecuteMessage portal fault)
  | .closeStatement stmt => some (.done (f.dropStatement stmt))
  | .closePortal portal => some (.done (f.setPortal portal none))
  | .sync =>
      if fault.isSome then some (.error f .preCommit) else (f.finishXactCommand bits).map .done
  | .query text => some (f.execSimpleQuery parse text fault)

/-- `SocketBackend` and the dispatch in `PostgresMain`. -/
def receive (parse : Text → Option (List RawStmt)) (f : Frontend N) (bits : Key → Status)
    (m : Message N) (fault : Option Fault) : Option (Outcome N) :=
  let f := { f with
    ignoreTillSync := f.ignoreTillSync && !m.isSync,
    doingExtendedQueryMessage := m.isExtended }
  if f.ignoreTillSync then some (.done f) else f.handle parse bits fault m

/-- A step of the statement that is being run. -/
def runStep (f : Frontend N) (bits : Key → Status) : Action → Option (Frontend N)
  | .pass e => (f.sess.step bits (.pass e)).map fun r => { f with sess := r.1 }
  | .noInsert => (f.sess.step bits .noInsert).map fun r => { f with sess := r.1 }
  | .portalEnd => (f.sess.step bits .portalEnd).map fun r =>
      { f with
        sess := r.1
        -- `exec_simple_query` drops its portal before `post_query_tasks`
        portals := if f.inSimpleQuery then Function.update f.portals none none
          else fun n => (f.portals n).map Portal.returned }
  | .next => (f.sess.step bits .next).map fun r =>
      { f with
        sess := r.1
        portals := if f.sess.pc = .ending ∧ f.sess.stmt.isSome then f.portalsAtCommit
          else f.portals }
  | _ => none

/-- What an event makes the session do, up to an error or a call of `PortalRun`. -/
def dispatch (parse : Text → Option (List RawStmt)) (f : Frontend N) (bits : Key → Status) :
    Event N → Option (Outcome N)
  | .message m fault =>
      if f.sess.pc = .idle ∧ f.inSimpleQuery = false then f.receive parse bits m fault else none
  | .nextStmt fault =>
      if f.sess.pc = .idle ∧ f.inSimpleQuery = true then f.nextStatement fault else none
  | .endQuery =>
      if f.sess.pc = .idle ∧ f.inSimpleQuery = true ∧ f.parsetrees = [] then
        (f.finishXactCommand bits).map fun g => .done { g with inSimpleQuery := false }
      else none
  | .run a => (f.runStep bits a).map .done
  | .error x =>
      if f.sess.pc = .idle ∧ f.inSimpleQuery = false then none else some (.error f x)

end Handlers

end Frontend

section

variable {N : Type} [DecidableEq N]

/-- What follows an outcome. -/
def Outcome.resume (bits : Key → Status) : Outcome N → Option (Frontend N)
  | .done f => some f
  | .error f x => f.ereport bits x
  | .portalRun f name p => f.portalRun bits name p

/-- One session.  An input is an event and the status bits at that time. -/
def frontend (N : Type) [DecidableEq N] (parse : Text → Option (List RawStmt)) :
    Machine (Frontend N) ((Key → Status) × Event N) where
  step f i := (f.dispatch parse i.1 i.2).bind (Outcome.resume i.1)

end

end BullFrog
