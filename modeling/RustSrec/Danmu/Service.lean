import RustSrec.Danmaku.Aggregator

/-!
# `DanmuService`: the collection registry under concurrency

The service keeps two `DashMap`s, `collections` (session id to `CollectionState`) and
`sessions_by_streamer` (streamer id to session id), and a broadcast channel. Every
call runs on tokio's multi-threaded runtime, so the model is an interleaving
semantics: a `Thread` for each `start_collection`, `stop_collection` and `shutdown`
call and a task for each registration (below), each with a program counter at one of
the code's awaits or map operations, and one atomic `Action` at a time. Each
`DashMap` operation, each channel send or receive, each `select!` and each
`persist_statistics` is one step; local computation is folded into the step after it.

What a step waits on is resolved by the scheduler's `Choice`: the outcome of
`CollectionRunner::new` under its timeout, what `runner.run` returns (its code is not
in the repository, so it may return `Ok` or `Err` at any step), which branch of
`select!` fires, and whether `stop_collection`'s wait on `done_rx` receives or times
out. A task that panics, and so drops its channels unsent, is not modelled.

Every `start_collection` insert creates a registration: its cancellation token,
command channel, `ready` and `done` channels and its task, whose program counter the
registration holds from the spawn on. A `CollectionState`
names its registration (`reg`), and the two logs, the broadcast events and the
persisted statistics, tag each entry with the registration it belongs to. These
tags are ghost state: the code has no such ids, and they only let properties say
whose entry is whose. The last section runs schedules in which the steps of
`start_collection` race with other calls.
-/

namespace RustSrec.Danmu

open Danmaku (DanmuStatistics)

/-! ## State -/

/-- The `DanmuEvent`s the service sends itself; the runner's own events are not
modelled. -/
inductive DanmuEvent where
  | collectionStarted (sessionId streamerId : String)
  | collectionStopped (sessionId : String) (statistics : DanmuStatistics)
  | error (sessionId error : String)
  deriving DecidableEq, Repr

/-- A `collections` entry: the streamer, and the registration whose cancellation
token, command sender and `done` receiver it holds. -/
structure CollectionState where
  streamerId : String
  reg : Nat
  deriving DecidableEq, Repr

/-- Where a cleanup is in reconciling `sessions_by_streamer` after it removed
`collections[S]`: at `get(streamer_id)`, compared with `S`, or at
`remove(streamer_id)`. Every cleanup path of the code runs these two steps. -/
inductive Reconcile where
  | get (streamerId : String)
  | remove (streamerId : String)
  deriving DecidableEq, Repr

/-- Where a spawned collection task is: at `timeout(CONNECT_TIMEOUT,
CollectionRunner::new(..))`; in a failed connect's branch, before `ready_tx.send(Err)`
once the error is broadcast (`failReady`) or before the broadcast once `ready_tx` got
the timeout (`failEvent`); in `runner.run(command_rx, cancel_token)`; in the cleanup of
an exit or a failed connect, at `collections.remove(session_id)`, the reconcile,
`persist_statistics` and the `CollectionStopped` broadcast; at `done_tx.send(result)`. -/
inductive TaskPc where
  | connect
  | failReady (error : String)
  | failEvent (error : String)
  | run
  | remove (result : Result DanmuStatistics)
  | reconcile (rc : Reconcile) (result : Result DanmuStatistics)
  | persist (statistics : DanmuStatistics)
  | stopped (statistics : DanmuStatistics)
  | done (result : Result DanmuStatistics)
  | finished
  deriving DecidableEq, Repr

/-- One registration: whether `cancel()` was called on its child token, what its task
sent on `ready_tx` and on `done_tx`, what its `runner.run` returned (a ghost), and where
its task is once spawned. -/
structure Registration where
  sessionId : String
  streamerId : String
  cancelled : Bool
  ready : Option (Result Unit)
  done : Option (Result DanmuStatistics)
  result : Option (Result DanmuStatistics)
  task : Option TaskPc
  deriving DecidableEq, Repr

/-- The state the threads share: the two maps, the service's own cancellation token,
the registrations, and the two logs with their ghost registration tags. -/
structure Shared where
  collections : HashMap CollectionState
  sessionsByStreamer : HashMap String
  cancelled : Bool
  regs : List Registration
  events : List (DanmuEvent × Nat)
  persisted : List (String × DanmuStatistics × Nat)
  deriving DecidableEq, Repr

namespace Shared

/-- A registration's token is a child of the service's: cancelling either cancels it. -/
def isCancelled (sh : Shared) (reg : Nat) : Bool :=
  sh.cancelled || (sh.regs.get? reg).any (·.cancelled)

def setReg (sh : Shared) (reg : Nat) (f : Registration → Registration) : Shared :=
  { sh with regs := sh.regs.modify f reg }

def emit (sh : Shared) (event : DanmuEvent) (reg : Nat) : Shared :=
  { sh with events := sh.events ++ [(event, reg)] }

def persist (sh : Shared) (sessionId : String) (statistics : DanmuStatistics) (reg : Nat) :
    Shared :=
  { sh with persisted := sh.persisted ++ [(sessionId, statistics, reg)] }

/-- `collections.remove(session_id)`: the map without the entry, and the entry. -/
def removeCollection (sh : Shared) (sessionId : String) : Shared × Option CollectionState :=
  ({ sh with collections := sh.collections.remove sessionId }, sh.collections.get sessionId)

end Shared

/-- One step of the reconcile of session `sessionId`; `none` once it is over. -/
def reconcileStep (sh : Shared) (sessionId : String) : Reconcile → Shared × Option Reconcile
  | .get x => (sh, if sh.sessionsByStreamer.get x = some sessionId then some (.remove x) else none)
  | .remove x => ({ sh with sessionsByStreamer := sh.sessionsByStreamer.remove x }, none)

/-! ## Observations -/

def DanmuEvent.isCollectionStopped : DanmuEvent → Bool
  | .collectionStopped .. => true
  | _ => false

def DanmuEvent.isCollectionStarted : DanmuEvent → Bool
  | .collectionStarted .. => true
  | _ => false

namespace Shared

def persistedBy (sh : Shared) (reg : Nat) : List (String × DanmuStatistics) :=
  (sh.persisted.filter (·.2.2 = reg)).map fun p => (p.1, p.2.1)

def eventsOf (sh : Shared) (reg : Nat) : List DanmuEvent :=
  (sh.events.filter (·.2 = reg)).map Prod.fst

end Shared

/-! ## Threads -/

/-- Where a `start_collection(session_id, streamer_id, ..)` call is: at
`collections.contains_key(session_id)` with the provider and room id lookups, at
`collections.insert`, at `sessions_by_streamer.insert` and `tokio::spawn`, at `select!`
on `ready_rx` and `cancel_token.cancelled()`, or in a failure branch's
`collections.remove(session_id)` and reconcile before it returns `err`. -/
inductive StartPc where
  | check
  | insert
  | insertStreamer (reg : Nat)
  | select (reg : Nat)
  | remove (err : String)
  | reconcile (rc : Reconcile) (err : String)
  | returned (result : Result Unit)
  deriving DecidableEq, Repr

/-- Where a `stop_collection(session_id)` call is. After the remove and the reconcile it
holds the removed state, and is at `command_tx.send(Stop)`, at `cancel_token.cancel()`,
at `timeout(STOP_TIMEOUT, done_rx)`, or in the persist and broadcast of what it got. -/
inductive StopPc where
  | remove
  | reconcile (st : CollectionState) (rc : Reconcile)
  | sendStop (st : CollectionState)
  | cancel (st : CollectionState)
  | await (st : CollectionState)
  | persist (st : CollectionState) (statistics : DanmuStatistics)
  | stopped (st : CollectionState) (statistics : DanmuStatistics)
  | returned (result : Result DanmuStatistics)
  deriving DecidableEq, Repr

/-- Where a `shutdown()` call is: it cancels the service's token, then stops the
sessions of a snapshot of `collections` one after another. -/
inductive ShutdownPc where
  | cancelAll
  | snapshot
  | stopping (sessionId : String) (pc : StopPc) (rest : List String)
  | finished
  deriving DecidableEq, Repr

/-- A call in progress; tasks live in their registrations. -/
inductive Thread where
  | start (sessionId streamerId : String) (lookupError : Option String) (pc : StartPc)
  | stop (sessionId : String) (pc : StopPc)
  | shutdown (pc : ShutdownPc)
  deriving DecidableEq, Repr

/-- The outcome of what a step waits on. -/
inductive Choice where
  | none
  | connectOk
  | connectErr (error : String)
  | connectTimeout
  | runnerOk (statistics : DanmuStatistics)
  | runnerErr (error : String)
  | readyBranch
  | cancelBranch
  | received
  | timedOut
  deriving DecidableEq, Repr

/-! ## Steps -/

/-- The message of the connect timeout (`CONNECT_TIMEOUT` is 30 s). -/
def timeoutMessage (sessionId : String) : String :=
  "Danmu connection timed out after 30s (session_id=" ++ sessionId ++ ")"

/-- One step of `start_collection(session_id, streamer_id, ..)`, where `lookupError`
is the error of the provider or room id lookup, if it fails. -/
def startStep (sh : Shared) (sessionId streamerId : String) (lookupError : Option String) :
    StartPc → Choice → Option (Shared × StartPc)
  | .check, .none =>
    if sh.collections.containsKey sessionId then
      some (sh, .returned (.err ("Collection already active for session " ++ sessionId)))
    else
      match lookupError with
      | some e => some (sh, .returned (.err e))
      | none => some (sh, .insert)
  | .insert, .none =>
    some ({ sh with
        collections := sh.collections.insert sessionId ⟨streamerId, sh.regs.length⟩
        regs := sh.regs ++ [⟨sessionId, streamerId, false, none, none, none, none⟩] },
      .insertStreamer sh.regs.length)
  | .insertStreamer reg, .none =>
    some (({ sh with sessionsByStreamer := sh.sessionsByStreamer.insert streamerId sessionId }.setReg
        reg fun r => { r with task := some .connect }), .select reg)
  | .select reg, .readyBranch =>
    match (sh.regs.get? reg).bind (·.ready) with
    | some (.ok ()) =>
      some (sh.emit (.collectionStarted sessionId streamerId) reg, .returned (.ok ()))
    | some (.err e) => some (sh, .remove e)
    | none => none
  | .select reg, .cancelBranch =>
    if sh.isCancelled reg then
      some (sh, .remove "Danmu collection cancelled before it became ready")
    else none
  | .remove err, .none =>
    let (sh, st) := sh.removeCollection sessionId
    some (sh, (st.map fun st => StartPc.reconcile (.get st.streamerId) err).getD (.returned (.err err)))
  | .reconcile rc err, .none =>
    let (sh, rc) := reconcileStep sh sessionId rc
    some (sh, (rc.map fun rc => StartPc.reconcile rc err).getD (.returned (.err err)))
  | _, _ => none

/-- One step of the collection task of registration `reg`. -/
def taskStep (sh : Shared) (reg : Nat) (sessionId : String) :
    TaskPc → Choice → Option (Shared × TaskPc)
  | .connect, .connectOk => some (sh.setReg reg fun r => { r with ready := some (.ok ()) }, .run)
  | .connect, .connectErr e => some (sh.emit (.error sessionId e) reg, .failReady e)
  | .connect, .connectTimeout =>
    some (sh.setReg reg (fun r => { r with ready := some (.err (timeoutMessage sessionId)) }),
      .failEvent (timeoutMessage sessionId))
  | .failReady e, .none => some (sh.setReg reg fun r => { r with ready := some (.err e) }, .remove (.err e))
  | .failEvent e, .none => some (sh.emit (.error sessionId e) reg, .remove (.err e))
  | .run, .runnerOk s => some (sh.setReg reg fun r => { r with result := some (.ok s) }, .remove (.ok s))
  | .run, .runnerErr e =>
    some ((sh.setReg reg fun r => { r with result := some (.err e) }).emit (.error sessionId e) reg,
      .remove (.err e))
  | .remove res, .none =>
    let (sh, st) := sh.removeCollection sessionId
    some (sh, (st.map fun st => TaskPc.reconcile (.get st.streamerId) res).getD (.done res))
  | .reconcile rc res, .none =>
    let (sh, rc) := reconcileStep sh sessionId rc
    some (sh,
      match rc, res with
      | some rc, _ => .reconcile rc res
      | none, .ok s => .persist s
      | none, .err _ => .done res)
  | .persist s, .none => some (sh.persist sessionId s reg, .stopped s)
  | .stopped s, .none => some (sh.emit (.collectionStopped sessionId s) reg, .done (.ok s))
  | .done res, .none => some (sh.setReg reg fun r => { r with done := some res }, .finished)
  | _, _ => none

/-- One step of `stop_collection(session_id)`. -/
def stopStep (sh : Shared) (sessionId : String) : StopPc → Choice → Option (Shared × StopPc)
  | .remove, .none =>
    let (sh, st) := sh.removeCollection sessionId
    some (sh, (st.map fun st => StopPc.reconcile st (.get st.streamerId)).getD
      (.returned (.err ("No active collection for session " ++ sessionId))))
  | .reconcile st rc, .none =>
    let (sh, rc) := reconcileStep sh sessionId rc
    some (sh, (rc.map fun rc => StopPc.reconcile st rc).getD (.sendStop st))
  | .sendStop st, .none => some (sh, .cancel st)
  | .cancel st, .none => some (sh.setReg st.reg fun r => { r with cancelled := true }, .await st)
  | .await st, .received =>
    match (sh.regs.get? st.reg).bind (·.done) with
    | some (.ok s) => some (sh, .persist st s)
    | some (.err _) => some (sh, .returned (.ok DanmuStatistics.default))
    | none => none
  | .await _, .timedOut => some (sh, .returned (.ok DanmuStatistics.default))
  | .persist st s, .none => some (sh.persist sessionId s st.reg, .stopped st s)
  | .stopped st s, .none => some (sh.emit (.collectionStopped sessionId s) st.reg, .returned (.ok s))
  | _, _ => none

def nextStop : List String → ShutdownPc
  | [] => .finished
  | s :: rest => .stopping s .remove rest

def afterStop (sessionId : String) (rest : List String) : StopPc → ShutdownPc
  | .returned _ => nextStop rest
  | pc => .stopping sessionId pc rest

/-- One step of `shutdown()`. -/
def shutdownStep (sh : Shared) : ShutdownPc → Choice → Option (Shared × ShutdownPc)
  | .cancelAll, .none => some ({ sh with cancelled := true }, .snapshot)
  | .snapshot, .none => some (sh, nextStop sh.collections.keys)
  | .stopping s pc rest, c => (stopStep sh s pc c).map fun (sh, pc) => (sh, afterStop s rest pc)
  | _, _ => none

def threadStep (sh : Shared) : Thread → Choice → Option (Shared × Thread)
  | .start s x e pc, c => (startStep sh s x e pc c).map fun (sh, pc) => (sh, .start s x e pc)
  | .stop s pc, c => (stopStep sh s pc c).map fun (sh, pc) => (sh, .stop s pc)
  | .shutdown pc, c => (shutdownStep sh pc c).map fun (sh, pc) => (sh, .shutdown pc)

def regStep (sh : Shared) (reg : Nat) (c : Choice) : Option Shared :=
  (sh.regs.get? reg).bind fun r =>
    r.task.bind fun pc =>
      (taskStep sh reg r.sessionId pc c).map fun (sh, pc) => sh.setReg reg fun r => { r with task := some pc }

/-! ## The service -/

/-- The shared state and every call so far (finished ones stay, so indices are fixed). -/
structure DanmuService where
  shared : Shared
  threads : List Thread
  deriving DecidableEq, Repr

/-- What the scheduler does next: a new call, one step of call `thread`, or one step
of registration `reg`'s task. -/
inductive Action where
  | startCollection (sessionId streamerId : String) (lookupError : Option String)
  | stopCollection (sessionId : String)
  | shutdown
  | step (thread : Nat) (choice : Choice)
  | task (reg : Nat) (choice : Choice)
  deriving DecidableEq, Repr

namespace DanmuService

/-- `DanmuService::new(config)`: empty maps, an uncancelled token, no threads. -/
def new : DanmuService := ⟨⟨HashMap.new, HashMap.new, false, [], [], []⟩, []⟩

def step (svc : DanmuService) : Action → Option DanmuService
  | .startCollection s x e => some { svc with threads := svc.threads ++ [.start s x e .check] }
  | .stopCollection s => some { svc with threads := svc.threads ++ [.stop s .remove] }
  | .shutdown => some { svc with threads := svc.threads ++ [.shutdown .cancelAll] }
  | .step i c =>
    (svc.threads.get? i).bind fun t =>
      (threadStep svc.shared t c).map fun (sh, t) => ⟨sh, svc.threads.set i t⟩
  | .task r c => (regStep svc.shared r c).map fun sh => { svc with shared := sh }

/-- The service after `acts`, or `none` if one of them is not enabled. -/
def run (svc : DanmuService) (acts : List Action) : Option DanmuService :=
  acts.foldlM step svc

theorem run_append (svc : DanmuService) (acts : List Action) (a : Action) :
    svc.run (acts ++ [a]) = (svc.run acts).bind (step · a) := by
  simp [run, List.foldlM_append]

/-- The states some schedule reaches from `new`. -/
def Reachable (svc : DanmuService) : Prop := ∃ acts, new.run acts = some svc

/-- What holds of `new` and is kept by every step holds of every reachable state. -/
theorem Reachable.induction (P : DanmuService → Prop) (h₀ : P new)
    (hs : ∀ {svc svc' : DanmuService} {a : Action}, P svc → svc.step a = some svc' → P svc')
    {svc : DanmuService} (h : svc.Reachable) : P svc := by
  obtain ⟨acts, h⟩ := h
  induction acts using List.reverseRecOn generalizing svc with
  | nil => exact Option.some.inj h ▸ h₀
  | append_singleton acts a ih =>
    rw [run_append] at h
    obtain ⟨mid, hmid, hstep⟩ := Option.bind_eq_some.1 h
    exact hs (ih hmid) hstep

end DanmuService

/-! ## Races of `start_collection`

Schedules of a few calls on session `s1` of streamer `x1`, and what the model computes
at their ends. The registry is keyed by the session id string only, the duplicate
check is a `contains_key` apart from the `insert`, the two maps are updated by
separate operations, and `start_collection` reports a start from the ready signal
alone; each schedule puts another thread between two of those steps. Thread numbers
are indices into `DanmuService.threads`, in the order the calls are made; a task is
named by its registration, numbered in the order of the inserts.
-/

open DanmuService

/-- The statistics the runners return in these schedules. -/
def finalStats : DanmuStatistics := { DanmuStatistics.default with totalCount := 3, chatCount := 3 }

/-- `start_collection("s1", "x1")` as thread `0`, with registration `0`: the
connect succeeds and the call returns `Ok`. -/
def startedS1 : List Action :=
  [.startCollection "s1" "x1" none, .step 0 .none, .step 0 .none, .step 0 .none,
    .task 0 .connectOk, .step 0 .readyBranch]

/-- Then `stop_collection("s1")` as thread `1` runs up to its wait on `done_rx`,
and `start_collection("s1", "x1")` starts again as thread `2`, with registration `1`. -/
def stoppedAndRestarted : List Action :=
  startedS1 ++
    [.stopCollection "s1", .step 1 .none, .step 1 .none, .step 1 .none, .step 1 .none,
      .step 1 .none,
      .startCollection "s1" "x1" none, .step 2 .none, .step 2 .none, .step 2 .none]

/-- The stale cleanup removes the second registration's entry; that registration's
task still connects, its `start_collection` returns `Ok`, and a later
`stop_collection("s1")` (thread `3`) finds nothing to stop. -/
def orphanedTask : List Action :=
  stoppedAndRestarted ++
    [.task 0 (.runnerOk finalStats), .task 0 .none,
      .task 1 .connectOk, .step 2 .readyBranch,
      .stopCollection "s1", .step 3 .none]

theorem orphaned_task_unreachable :
    (new.run orphanedTask).map (fun svc =>
        (svc.shared.collections.get "s1", svc.shared.isCancelled 1, svc.threads.get? 2,
          (svc.shared.regs.get? 1).bind (·.task), svc.threads.get? 3)) =
      some (none, false, some (.start "s1" "x1" none (.returned (.ok ()))), some .run,
        some (.stop "s1" (.returned (.err "No active collection for session s1")))) := by
  decide

/-! ## Two starts of one session -/

/-- Two `start_collection("s1", "x1")` calls (threads `0` and `1`) both pass
`contains_key` before either inserts; both insert and spawn (registrations `0` and
`1`), both tasks connect and both calls return `Ok`. -/
def concurrentStarts : List Action :=
  [.startCollection "s1" "x1" none, .startCollection "s1" "x1" none,
    .step 0 .none, .step 1 .none,
    .step 0 .none, .step 0 .none, .step 1 .none, .step 1 .none,
    .task 0 .connectOk, .task 1 .connectOk, .step 0 .readyBranch, .step 1 .readyBranch]

theorem concurrent_starts_both_spawn :
    (new.run concurrentStarts).map (fun svc =>
        (svc.shared.regs.map (·.task), svc.threads, svc.shared.collections.get "s1")) =
      some ([some .run, some .run],
        [.start "s1" "x1" none (.returned (.ok ())), .start "s1" "x1" none (.returned (.ok ()))],
        some ⟨"x1", 1⟩) := by
  decide

/-! ## The reverse index -/

/-- `stop_collection("s1")` (thread `1`) runs between the two inserts of
`start_collection` (thread `0`): it removes `collections["s1"]` before
`sessions_by_streamer["x1"]` exists, so the insert after it is never undone. Every
thread then runs to its end: the start sees its token cancelled, the task connects
and returns, and the stop receives its statistics. -/
def staleReverseEntry : List Action :=
  [.startCollection "s1" "x1" none, .step 0 .none, .step 0 .none,
    .stopCollection "s1", .step 1 .none, .step 1 .none,
    .step 0 .none,
    .step 1 .none, .step 1 .none,
    .step 0 .cancelBranch, .step 0 .none,
    .task 0 .connectOk, .task 0 (.runnerOk finalStats), .task 0 .none, .task 0 .none,
    .step 1 .received, .step 1 .none, .step 1 .none]

/-- `stop_collection("s1")` (thread `1`) has found `sessions_by_streamer["x1"] = "s1"`
when `start_collection("s2", "x1")` (thread `2`) indexes its own session under
`x1`; the stop then removes that entry. -/
def reverseEntryOfOther : List Action :=
  startedS1 ++
    [.stopCollection "s1", .step 1 .none, .step 1 .none,
      .startCollection "s2" "x1" none, .step 2 .none, .step 2 .none, .step 2 .none,
      .step 1 .none]

theorem reverse_index_inconsistent :
    (new.run staleReverseEntry).map (fun svc =>
        (svc.shared.sessionsByStreamer.get "x1", svc.shared.collections.get "s1",
          (svc.threads.all fun t => t matches .start _ _ _ (.returned _) | .stop _ (.returned _)) &&
            svc.shared.regs.all (·.task == some .finished))) =
      some (some "s1", none, true) ∧
    (new.run reverseEntryOfOther).map (fun svc =>
        (svc.shared.sessionsByStreamer.get "x1", svc.shared.collections.get "s2")) =
      some (none, some ⟨"x1", 1⟩) := by
  decide

/-! ## A start reported after the stop -/

/-- The task connects and signals ready; `shutdown()` (thread `1`) cancels the
service's token before `start_collection` (thread `0`) is scheduled; the runner
returns on the cancellation and the task's cleanup broadcasts `CollectionStopped`;
the shutdown's snapshot is then empty; last, `select!` takes the ready branch
(both branches are ready) and broadcasts `CollectionStarted`. -/
def startedAfterStopped : List Action :=
  [.startCollection "s1" "x1" none, .step 0 .none, .step 0 .none, .step 0 .none,
    .task 0 .connectOk,
    .shutdown, .step 1 .none,
    .task 0 (.runnerOk finalStats), .task 0 .none, .task 0 .none, .task 0 .none, .task 0 .none,
    .task 0 .none, .task 0 .none,
    .step 1 .none,
    .step 0 .readyBranch]

theorem started_after_stopped :
    (new.run startedAfterStopped).map (fun svc =>
        (svc.shared.eventsOf 0, svc.threads.get? 0, svc.shared.collections.get "s1")) =
      some ([.collectionStopped "s1" finalStats, .collectionStarted "s1" "x1"],
        some (.start "s1" "x1" none (.returned (.ok ()))), none) := by
  decide

end RustSrec.Danmu
