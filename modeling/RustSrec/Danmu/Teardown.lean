import RustSrec.Danmu.Service

/-!
# Who tears a registration down

Every teardown path of the service begins with `collections.remove(session_id)`:
`stop_collection`, the task's exit cleanup, and the failure branches of
`start_collection`. Only the caller that gets the entry back goes on, and for a stop,
or a task whose runner returned `Ok`, going on means persisting the statistics and
broadcasting `CollectionStopped`. The entry is thus the right to tear its registration
down. That right is never duplicated while the session ids of distinct starts differ;
in `reused_session_persisted_twice` the stale cleanup takes another registration's
entry only because the two share a session id.

The right is counted. A registration's `claims` add its `collections` entries, the
task and the stops holding its removed state with a broadcast still to come, and the
broadcasts made. No step raises them but the insert that creates the registration,
from `0` to `1`. A second count balances persists against broadcasts: whoever persists
broadcasts next. Together they give that each registration's statistics are persisted,
and its `CollectionStopped` broadcast, at most once.
-/

namespace RustSrec.Danmu

open Danmaku (DanmuStatistics)

/-! ## Duties -/

/-- What a teardown holding a registration's removed state has still to do. -/
inductive Duty where
  | persist
  | broadcast
  deriving DecidableEq, Repr

/-- `1` while a task holding its registration's removed state still owes duty `d`: its
exit cleanup found the entry, after the runner returned `Ok`. -/
def TaskPc.owes (d : Duty) : TaskPc → Nat
  | .reconcile _ (.ok _) | .persist _ => 1
  | .stopped _ => if d = .broadcast then 1 else 0
  | _ => 0

/-- `1` while a stop holding registration `reg`'s removed state still owes duty `d`. -/
def StopPc.owes (d : Duty) (reg : Nat) : StopPc → Nat
  | .reconcile st _ | .sendStop st | .cancel st | .await st | .persist st _ =>
    if st.reg = reg then 1 else 0
  | .stopped st _ => if d = .broadcast ∧ st.reg = reg then 1 else 0
  | .remove | .returned _ => 0

/-- What a call owes: a `stop_collection`, or the one `shutdown`'s loop is in. -/
def Thread.owes (d : Duty) (reg : Nat) : Thread → Nat
  | .stop _ pc | .shutdown (.stopping _ pc _) => pc.owes d reg
  | _ => 0

@[simp] theorem StopPc.owes_afterStop (d : Duty) (reg : Nat) (s : String) (rest : List String)
    (pc : StopPc) : Thread.owes d reg (.shutdown (afterStop s rest pc)) = pc.owes d reg := by
  cases pc <;> simp only [afterStop, Thread.owes, StopPc.owes]
  case returned => cases rest <;> rfl

/-! ## What the shared state records -/

@[simp] theorem DanmuEvent.isCollectionStopped_collectionStopped (S : String) (s : DanmuStatistics) :
    (DanmuEvent.collectionStopped S s).isCollectionStopped = true := rfl

@[simp] theorem DanmuEvent.isCollectionStopped_error (S e : String) :
    (DanmuEvent.error S e).isCollectionStopped = false := rfl

@[simp] theorem DanmuEvent.isCollectionStopped_collectionStarted (S X : String) :
    (DanmuEvent.collectionStarted S X).isCollectionStopped = false := rfl

namespace Shared

/-- Registration `reg`'s `collections` entries. -/
def entriesOf (sh : Shared) (reg : Nat) : Nat :=
  sh.collections.total fun st => if st.reg = reg then 1 else 0

/-- Its `CollectionStopped` broadcasts. -/
def stopsOf (sh : Shared) (reg : Nat) : Nat :=
  sh.events.countP fun e => e.1.isCollectionStopped && e.2 = reg

/-- Its persists. -/
def persistsOf (sh : Shared) (reg : Nat) : Nat := sh.persisted.countP (·.2.2 = reg)

/-- Its task, once spawned. -/
def taskOf (sh : Shared) (reg : Nat) : Option TaskPc := (sh.regs.get? reg).bind (·.task)

/-- What has been done of duty `d` for registration `reg`. -/
def doneOf (sh : Shared) : Duty → Nat → Nat
  | .persist, reg => sh.persistsOf reg
  | .broadcast, reg => sh.stopsOf reg

/-- What the shared state holds of the right to do duty `d` for `reg`: its entries, its
task if that holds the removed state and owes `d`, and what was done. -/
def ledger (sh : Shared) (d : Duty) (reg : Nat) : Nat :=
  sh.entriesOf reg + ((sh.taskOf reg).map (TaskPc.owes d)).getD 0 + sh.doneOf d reg

/-- Every `collections` entry names a registration of its own session. -/
def Named (sh : Shared) : Prop :=
  ∀ x ∈ sh.collections.entries, (sh.regs.map (·.sessionId))[x.2.reg]? = some x.1

variable (sh : Shared) (reg r : Nat) (f : Registration → Registration)

theorem taskOf_setReg (hf : ∀ x, (f x).task = x.task) : (sh.setReg reg f).taskOf r = sh.taskOf r := by
  simp only [taskOf, setReg, List.get?_eq_getElem?, List.getElem?_modify]
  cases sh.regs[r]? with
  | none => rfl
  | some x => by_cases h : reg = r <;> simp [h, hf]

theorem taskOf_setReg_task (t : Option TaskPc) :
    (sh.setReg reg fun x => { x with task := t }).taskOf r =
      if reg = r then (sh.regs.get? r).bind fun _ => t else sh.taskOf r := by
  simp only [taskOf, setReg, List.get?_eq_getElem?, List.getElem?_modify]
  cases sh.regs[r]? <;> by_cases h : reg = r <;> simp [h]

/-- The insert of `start_collection` appends a registration whose task is not spawned yet. -/
theorem taskOf_append (cs : HashMap CollectionState) (x : Registration) (hx : x.task = none) :
    { sh with collections := cs, regs := sh.regs ++ [x] }.taskOf r = sh.taskOf r := by
  simp only [taskOf, List.get?_eq_getElem?, List.getElem?_append]
  split
  · rfl
  · have : sh.regs[r]? = none := List.getElem?_eq_none (by omega)
    rw [this]
    cases r - sh.regs.length <;> simp [hx]

theorem sessions_setReg (hf : ∀ x, (f x).sessionId = x.sessionId) :
    (sh.setReg reg f).regs.map (·.sessionId) = sh.regs.map (·.sessionId) := by
  refine List.ext_getElem? fun n => ?_
  simp only [setReg, List.getElem?_map, List.getElem?_modify]
  cases sh.regs[n]? <;> simp [apply_ite, hf]

@[simp] theorem emit_regs (e : DanmuEvent) : (sh.emit e reg).regs = sh.regs := rfl
@[simp] theorem emit_collections (e : DanmuEvent) : (sh.emit e reg).collections = sh.collections := rfl
@[simp] theorem persist_regs (s : String) (stats : DanmuStatistics) :
    (sh.persist s stats reg).regs = sh.regs := rfl
@[simp] theorem persist_collections (s : String) (stats : DanmuStatistics) :
    (sh.persist s stats reg).collections = sh.collections := rfl
@[simp] theorem entriesOf_emit (e : DanmuEvent) : (sh.emit e reg).entriesOf r = sh.entriesOf r := rfl
@[simp] theorem persistsOf_emit (e : DanmuEvent) : (sh.emit e reg).persistsOf r = sh.persistsOf r := rfl
@[simp] theorem taskOf_emit (e : DanmuEvent) : (sh.emit e reg).taskOf r = sh.taskOf r := rfl
@[simp] theorem entriesOf_persist (s : String) (stats : DanmuStatistics) :
    (sh.persist s stats reg).entriesOf r = sh.entriesOf r := rfl
@[simp] theorem stopsOf_persist (s : String) (stats : DanmuStatistics) :
    (sh.persist s stats reg).stopsOf r = sh.stopsOf r := rfl
@[simp] theorem taskOf_persist (s : String) (stats : DanmuStatistics) :
    (sh.persist s stats reg).taskOf r = sh.taskOf r := rfl
@[simp] theorem setReg_collections : (sh.setReg reg f).collections = sh.collections := rfl
@[simp] theorem setReg_events : (sh.setReg reg f).events = sh.events := rfl
@[simp] theorem setReg_persisted : (sh.setReg reg f).persisted = sh.persisted := rfl
@[simp] theorem entriesOf_setReg : (sh.setReg reg f).entriesOf r = sh.entriesOf r := rfl
@[simp] theorem stopsOf_setReg : (sh.setReg reg f).stopsOf r = sh.stopsOf r := rfl
@[simp] theorem persistsOf_setReg : (sh.setReg reg f).persistsOf r = sh.persistsOf r := rfl

@[simp] theorem doneOf_setReg (d : Duty) : (sh.setReg reg f).doneOf d r = sh.doneOf d r := by
  cases d <;> rfl

@[simp] theorem stopsOf_emit (e : DanmuEvent) :
    (sh.emit e reg).stopsOf r = sh.stopsOf r + if e.isCollectionStopped ∧ reg = r then 1 else 0 := by
  simp [stopsOf, emit, List.countP_append, List.countP_cons]

@[simp] theorem persistsOf_persist (s : String) (stats : DanmuStatistics) :
    (sh.persist s stats reg).persistsOf r = sh.persistsOf r + if reg = r then 1 else 0 := by
  simp [persistsOf, persist, List.countP_append, List.countP_cons]

@[simp] theorem doneOf_emit (e : DanmuEvent) (d : Duty) :
    (sh.emit e reg).doneOf d r =
      sh.doneOf d r + if d = .broadcast ∧ e.isCollectionStopped ∧ reg = r then 1 else 0 := by
  cases d <;> simp [doneOf]

@[simp] theorem doneOf_persist (s : String) (stats : DanmuStatistics) (d : Duty) :
    (sh.persist s stats reg).doneOf d r = sh.doneOf d r + if d = .persist ∧ reg = r then 1 else 0 := by
  cases d <;> simp [doneOf]

/-- The remove a teardown starts with: it takes at least the entry it returns. -/
theorem entriesOf_removeCollection (S : String) :
    (sh.removeCollection S).1.entriesOf r +
        (((sh.removeCollection S).2.map fun st => if st.reg = r then 1 else 0).getD 0) ≤
      sh.entriesOf r :=
  HashMap.total_remove_add_get_le _ _ _

end Shared

theorem reconcileStep_eq (sh : Shared) (S : String) (rc : Reconcile) :
    ∃ sbs, (reconcileStep sh S rc).1 = { sh with sessionsByStreamer := sbs } := by
  cases rc
  · exact ⟨sh.sessionsByStreamer, rfl⟩
  · exact ⟨_, rfl⟩

/-! ## One step of each thread -/

/-- `1` while a `start_collection` has not passed its insert: it may still create a
registration. -/
def StartPc.pending : StartPc → Nat
  | .check | .insert => 1
  | _ => 0

/-- `1` for a `start_collection` of session `S` that has not passed its insert. -/
def Thread.pendingStart (S : String) : Thread → Nat
  | .start s _ _ pc => if s = S then pc.pending else 0
  | _ => 0

section Steps

variable {sh sh' : Shared} {S : String} {c : Choice}

/-- One step of `stop_collection` leaves the registrations and their tasks alone and
only removes entries; what it owes it takes over with the entry it removes, and each
duty it does it owes no more. -/
theorem stopStep_spec {pc pc' : StopPc} (h : stopStep sh S pc c = some (sh', pc')) :
    sh'.regs.map (·.sessionId) = sh.regs.map (·.sessionId) ∧ (∀ r, sh'.taskOf r = sh.taskOf r) ∧
    sh'.collections.entries ⊆ sh.collections.entries ∧
    ∀ d r, sh'.entriesOf r + sh'.doneOf d r + pc'.owes d r ≤ sh.entriesOf r + sh.doneOf d r + pc.owes d r := by
  unfold stopStep at h
  split at h
  case h_1 =>
    have hr := fun r => sh.entriesOf_removeCollection r S
    obtain ⟨rfl, rfl⟩ := Prod.mk.inj (Option.some.inj h)
    refine ⟨rfl, fun _ => rfl, List.filter_subset' _, fun d r => ?_⟩
    have := hr r
    simp only [Shared.removeCollection] at this ⊢
    generalize sh.collections.get S = o at this ⊢
    cases o <;> cases d <;>
      simp only [Option.map_none', Option.map_some', Option.getD_none, Option.getD_some, StopPc.owes,
        Shared.doneOf, Shared.stopsOf, Shared.persistsOf] at this ⊢ <;>
      omega
  case h_2 st rc =>
    simp only [Option.some.injEq, Prod.mk.injEq] at h
    obtain ⟨rfl, rfl⟩ := h
    obtain ⟨sbs, hsbs⟩ := reconcileStep_eq sh S rc
    rw [hsbs]
    refine ⟨rfl, fun _ => rfl, fun _ => id, fun d r => ?_⟩
    cases (reconcileStep sh S rc).2 <;> cases d <;> simp [Shared.entriesOf, Shared.doneOf, Shared.stopsOf, Shared.persistsOf, StopPc.owes]
  case h_3 st =>
    obtain ⟨rfl, rfl⟩ := Prod.mk.inj (Option.some.inj h)
    simp [StopPc.owes]
  case h_4 st =>
    obtain ⟨rfl, rfl⟩ := Prod.mk.inj (Option.some.inj h)
    refine ⟨Shared.sessions_setReg _ _ _ fun _ => rfl, fun _ => Shared.taskOf_setReg _ _ _ _ fun _ => rfl, fun _ => id, fun d r => ?_⟩
    cases d <;> simp [StopPc.owes, Shared.doneOf]
  case h_5 st =>
    split at h
    · obtain ⟨rfl, rfl⟩ := Prod.mk.inj (Option.some.inj h)
      simp [StopPc.owes]
    · obtain ⟨rfl, rfl⟩ := Prod.mk.inj (Option.some.inj h)
      simp [StopPc.owes]
    · cases h
  case h_6 st =>
    obtain ⟨rfl, rfl⟩ := Prod.mk.inj (Option.some.inj h)
    simp [StopPc.owes]
  case h_7 st s =>
    obtain ⟨rfl, rfl⟩ := Prod.mk.inj (Option.some.inj h)
    refine ⟨rfl, fun _ => rfl, fun _ => id, fun d r => ?_⟩
    cases d <;> simp [StopPc.owes, Shared.doneOf, Shared.entriesOf, Shared.persist, Shared.persistsOf, Shared.stopsOf, List.countP_cons,
      Nat.add_assoc]
  case h_8 st s =>
    obtain ⟨rfl, rfl⟩ := Prod.mk.inj (Option.some.inj h)
    refine ⟨rfl, fun _ => rfl, fun _ => id, fun d r => ?_⟩
    cases d <;> simp [StopPc.owes, Shared.doneOf, Shared.entriesOf, Shared.emit, Shared.persistsOf, Shared.stopsOf, List.countP_cons,
      Nat.add_assoc]
  case h_9 => cases h

/-- One step of `start_collection` owes nothing and does no duty. Only its insert adds: a
registration of its session, and the one entry, which names that registration. -/
theorem startStep_spec {X : String} {le : Option String} {pc pc' : StartPc}
    (h : startStep sh S X le pc c = some (sh', pc')) :
    sh'.regs.map (·.sessionId) = sh.regs.map (·.sessionId) ++ (if pc = .insert then [S] else []) ∧
    pc'.pending + (if pc = .insert then 1 else 0) ≤ pc.pending ∧
    (∀ x ∈ sh'.collections.entries,
      x ∈ sh.collections.entries ∨ (sh'.regs.map (·.sessionId))[x.2.reg]? = some x.1) ∧
    ∀ d r, sh'.ledger d r ≤ sh.ledger d r + if pc = .insert ∧ r = sh.regs.length then 1 else 0 := by
  unfold startStep at h
  split at h
  case h_1 =>
    split at h
    · obtain ⟨rfl, rfl⟩ := Prod.mk.inj (Option.some.inj h)
      exact ⟨by simp, by simp [StartPc.pending], fun x hx => .inl hx, fun d r => by simp⟩
    · split at h <;> obtain ⟨rfl, rfl⟩ := Prod.mk.inj (Option.some.inj h) <;>
        exact ⟨by simp, by simp [StartPc.pending], fun x hx => .inl hx, fun d r => by simp⟩
  case h_2 =>
    obtain ⟨rfl, rfl⟩ := Prod.mk.inj (Option.some.inj h)
    refine ⟨by simp, by simp [StartPc.pending], fun x hx => ?_, fun d r => ?_⟩
    · simp only [HashMap.entries_insert, List.mem_append, List.mem_filter, List.mem_singleton] at hx
      rcases hx with ⟨hx, -⟩ | rfl
      · exact .inl hx
      · exact .inr (by simp [List.getElem?_append_right])
    · have := HashMap.total_insert_le (fun st => if st.reg = r then 1 else 0) sh.collections S
        ⟨X, sh.regs.length⟩
      cases d <;> simp [Shared.ledger, Shared.entriesOf, Shared.taskOf_append, Shared.doneOf,
        Shared.persistsOf, Shared.stopsOf] at this ⊢ <;> split_ifs at this ⊢ <;> omega
  case h_3 reg =>
    obtain ⟨rfl, rfl⟩ := Prod.mk.inj (Option.some.inj h)
    refine ⟨by simp [Shared.sessions_setReg], by simp [StartPc.pending], fun x hx => .inl hx,
      fun d r => ?_⟩
    simp only [Shared.ledger, Shared.taskOf_setReg_task, Shared.entriesOf_setReg]
    by_cases hr : reg = r
    · cases d <;> cases sh.regs.get? r <;> simp [hr, TaskPc.owes, Shared.doneOf, Shared.entriesOf,
        Shared.persistsOf, Shared.stopsOf]
    · cases d <;> simp [hr, Shared.doneOf, Shared.entriesOf, Shared.persistsOf, Shared.stopsOf, Shared.taskOf]
  case h_4 reg =>
    split at h
    · obtain ⟨rfl, rfl⟩ := Prod.mk.inj (Option.some.inj h)
      refine ⟨by simp, by simp [StartPc.pending], fun x hx => .inl hx, fun d r => ?_⟩
      cases d <;> simp [Shared.ledger, Shared.doneOf, Shared.entriesOf, Shared.persistsOf, Shared.emit,
        Shared.stopsOf, Shared.taskOf, List.countP_cons]
    · obtain ⟨rfl, rfl⟩ := Prod.mk.inj (Option.some.inj h)
      exact ⟨by simp, by simp [StartPc.pending], fun x hx => .inl hx, fun d r => by simp⟩
    · cases h
  case h_5 reg =>
    split at h
    · obtain ⟨rfl, rfl⟩ := Prod.mk.inj (Option.some.inj h)
      exact ⟨by simp, by simp [StartPc.pending], fun x hx => .inl hx, fun d r => by simp⟩
    · cases h
  case h_6 err =>
    obtain ⟨rfl, rfl⟩ := Prod.mk.inj (Option.some.inj h)
    refine ⟨by simp [Shared.removeCollection], ?_, fun x hx => .inl (List.filter_subset' _ hx),
      fun d r => ?_⟩
    · cases sh.collections.get S <;> simp [StartPc.pending]
    · have := HashMap.total_remove_le (fun st => if st.reg = r then 1 else 0) sh.collections S
      cases d <;> simp [Shared.ledger, Shared.removeCollection, Shared.doneOf, Shared.entriesOf,
        Shared.persistsOf, Shared.stopsOf, Shared.taskOf] <;> omega
  case h_7 rc err =>
    simp only [Option.some.injEq, Prod.mk.injEq] at h
    obtain ⟨rfl, rfl⟩ := h
    obtain ⟨sbs, hsbs⟩ := reconcileStep_eq sh S rc
    rw [hsbs]
    refine ⟨by simp, ?_, fun x hx => .inl hx, fun d r => ?_⟩
    · cases (reconcileStep sh S rc).2 <;> simp [StartPc.pending]
    · cases d <;> simp [Shared.ledger, Shared.doneOf, Shared.entriesOf, Shared.persistsOf,
        Shared.stopsOf, Shared.taskOf]
  case h_8 => cases h

/-- One step of registration `reg`'s task leaves the registrations' session ids and tasks
alone and only removes entries. Given that the entry its session's remove finds is its
own registration's, what it owes it takes over with that entry, and each duty it does it
owes no more. -/
theorem taskStep_spec {reg : Nat} {pc pc' : TaskPc} (h : taskStep sh reg S pc c = some (sh', pc')) :
    sh'.regs.map (·.sessionId) = sh.regs.map (·.sessionId) ∧ (∀ r, sh'.taskOf r = sh.taskOf r) ∧
    sh'.collections.entries ⊆ sh.collections.entries ∧
    ((∀ st, sh.collections.get S = some st → st.reg = reg) → ∀ d r, sh'.entriesOf r + sh'.doneOf d r + (if r = reg then pc'.owes d else 0) ≤
      sh.entriesOf r + sh.doneOf d r + if r = reg then pc.owes d else 0) := by
  unfold taskStep at h
  split at h
  case h_8 res =>
    obtain ⟨rfl, rfl⟩ := Prod.mk.inj (Option.some.inj h)
    refine ⟨rfl, fun _ => rfl, List.filter_subset' _, fun hown d r => ?_⟩
    have he := sh.entriesOf_removeCollection r S
    have hdone : (sh.removeCollection S).1.doneOf d r = sh.doneOf d r := by cases d <;> rfl
    simp only [Shared.removeCollection] at he hdone ⊢
    rw [hdone]
    revert hown
    generalize sh.collections.get S = o at he ⊢
    intro hown
    cases o with
    | none =>
      simp only [Option.map_none', Option.getD_none, TaskPc.owes, ite_self] at he ⊢
      omega
    | some st =>
      obtain rfl := hown st rfl
      have hm : TaskPc.owes d (.reconcile (.get st.streamerId) res) ≤ 1 := by
        cases res <;> simp [TaskPc.owes]
      simp only [Option.map_some', Option.getD_some, TaskPc.owes] at he hm ⊢
      rcases eq_or_ne st.reg r with rfl | hs
      · simp only [eq_self_iff_true, if_true] at he ⊢; omega
      · simp only [if_neg hs, if_neg hs.symm] at he ⊢; omega
  case h_9 rc res =>
    simp only [Option.some.injEq, Prod.mk.injEq] at h
    obtain ⟨rfl, rfl⟩ := h
    obtain ⟨sbs, hsbs⟩ := reconcileStep_eq sh S rc
    rw [hsbs]
    refine ⟨rfl, fun _ => rfl, fun _ => id, fun _ d r => ?_⟩
    cases (reconcileStep sh S rc).2 <;> cases res <;> cases d <;>
      simp [TaskPc.owes, Shared.doneOf, Shared.entriesOf, Shared.stopsOf, Shared.persistsOf]
  case h_10 s =>
    obtain ⟨rfl, rfl⟩ := Prod.mk.inj (Option.some.inj h)
    refine ⟨rfl, fun _ => rfl, fun _ => id, fun _ d r => ?_⟩
    cases d <;> simp [TaskPc.owes, Shared.doneOf]
    split_ifs <;> omega
  case h_11 s =>
    obtain ⟨rfl, rfl⟩ := Prod.mk.inj (Option.some.inj h)
    refine ⟨rfl, fun _ => rfl, fun _ => id, fun _ d r => ?_⟩
    cases d <;> simp [TaskPc.owes, Shared.doneOf]
    split_ifs <;> omega
  case h_13 => cases h
  all_goals
    obtain ⟨rfl, rfl⟩ := Prod.mk.inj (Option.some.inj h)
    exact ⟨by simp [Shared.sessions_setReg], fun _ => by simp [Shared.taskOf_setReg], fun _ => id,
      fun _ d r => by simp [TaskPc.owes]⟩

/-- `shutdown()` only cancels the service's token and runs stops. -/
theorem shutdownStep_spec {pc pc' : ShutdownPc} (h : shutdownStep sh pc c = some (sh', pc')) :
    sh'.regs.map (·.sessionId) = sh.regs.map (·.sessionId) ∧ (∀ r, sh'.taskOf r = sh.taskOf r) ∧
    sh'.collections.entries ⊆ sh.collections.entries ∧
    ∀ d r, sh'.entriesOf r + sh'.doneOf d r + (Thread.shutdown pc').owes d r ≤
      sh.entriesOf r + sh.doneOf d r + (Thread.shutdown pc).owes d r := by
  unfold shutdownStep at h
  split at h
  case h_1 =>
    obtain ⟨rfl, rfl⟩ := Prod.mk.inj (Option.some.inj h)
    refine ⟨rfl, fun _ => rfl, fun _ => id, fun d r => ?_⟩
    cases d <;> rfl
  case h_2 =>
    obtain ⟨rfl, rfl⟩ := Prod.mk.inj (Option.some.inj h)
    refine ⟨rfl, fun _ => rfl, fun _ => id, fun d r => ?_⟩
    cases sh.collections.keys <;> simp [nextStop, Thread.owes, StopPc.owes]
  case h_3 s pc rest =>
    obtain ⟨⟨sh₁, pc₁⟩, hs, he⟩ := Option.map_eq_some'.1 h
    obtain ⟨rfl, rfl⟩ := Prod.mk.inj he
    obtain ⟨h₁, h₂, h₃, h₄⟩ := stopStep_spec hs
    exact ⟨h₁, h₂, h₃, fun d r => by rw [StopPc.owes_afterStop]; exact h₄ d r⟩
  case h_4 => cases h

/-- One step of a call's thread: what `startStep`, `stopStep` and `shutdownStep` say,
with the registrations a start may add counted as new claims. -/
theorem threadStep_spec {t t' : Thread} (h : threadStep sh t c = some (sh', t')) :
    (∃ l, sh'.regs.map (·.sessionId) = sh.regs.map (·.sessionId) ++ l) ∧
    (∀ x ∈ sh'.collections.entries,
      x ∈ sh.collections.entries ∨ (sh'.regs.map (·.sessionId))[x.2.reg]? = some x.1) ∧
    (∀ d r, sh'.ledger d r + t'.owes d r ≤
      sh.ledger d r + t.owes d r + if sh.regs.length ≤ r ∧ r < sh'.regs.length then 1 else 0) ∧
    ∀ S, (sh'.regs.map (·.sessionId)).count S + t'.pendingStart S ≤
      (sh.regs.map (·.sessionId)).count S + t.pendingStart S := by
  cases t with
  | start S X le pc =>
    obtain ⟨⟨sh₁, pc₁⟩, hs, he⟩ := Option.map_eq_some'.1 h
    obtain ⟨rfl, rfl⟩ := Prod.mk.inj he
    obtain ⟨h₁, h₂, h₃, h₄⟩ := startStep_spec hs
    have hlen := congrArg List.length h₁
    simp only [List.length_map, List.length_append] at hlen
    refine ⟨⟨_, h₁⟩, h₃, fun d r => ?_, fun S' => ?_⟩
    · have := h₄ d r
      by_cases hpc : pc = .insert <;> simp [hpc, Thread.owes] at this hlen ⊢ <;> split_ifs at * <;> omega
    · by_cases hpc : pc = .insert <;> by_cases hS : S = S' <;>
        simp [h₁, hpc, hS, Thread.pendingStart, List.count_singleton] at h₂ ⊢ <;> omega
  | stop S pc =>
    obtain ⟨⟨sh₁, pc₁⟩, hs, he⟩ := Option.map_eq_some'.1 h
    obtain ⟨rfl, rfl⟩ := Prod.mk.inj he
    obtain ⟨h₁, h₂, h₃, h₄⟩ := stopStep_spec hs
    refine ⟨⟨[], by simpa using h₁⟩, fun x hx => .inl (h₃ hx), fun d r => ?_, fun S => by
      simp [h₁, Thread.pendingStart]⟩
    have := h₄ d r
    simp only [Shared.ledger, h₂, Thread.owes]
    omega
  | shutdown pc =>
    obtain ⟨⟨sh₁, pc₁⟩, hs, he⟩ := Option.map_eq_some'.1 h
    obtain ⟨rfl, rfl⟩ := Prod.mk.inj he
    obtain ⟨h₁, h₂, h₃, h₄⟩ := shutdownStep_spec hs
    refine ⟨⟨[], by simpa using h₁⟩, fun x hx => .inl (h₃ hx), fun d r => ?_, fun S => by
      simp [h₁, Thread.pendingStart]⟩
    have := h₄ d r
    simp only [Shared.ledger, h₂]
    omega

/-- The entry a task's remove finds is its own registration's, while entries name
registrations of their own sessions and no two registrations share a session id. -/
theorem get_own {reg : Nat} {x : Registration} (hx : sh.regs.get? reg = some x)
    (hsess : sh.Named) (hu : (sh.regs.map (·.sessionId)).Nodup) (st : CollectionState)
    (hst : sh.collections.get x.sessionId = some st) : st.reg = reg := by
  have h₁ := hsess _ (HashMap.mem_entries_of_get hst)
  have h₂ : (sh.regs.map (·.sessionId))[reg]? = some x.sessionId := by
    rw [List.getElem?_map, ← List.get?_eq_getElem?, hx]
    rfl
  exact List.getElem?_inj (by simpa using (List.getElem?_eq_some_iff.1 h₁).1) hu (h₁.trans h₂.symm)

/-- One step of a task, given that entries name registrations of their own sessions and
no two registrations share a session id. -/
theorem regStep_spec {reg : Nat} (h : regStep sh reg c = some sh') :
    sh'.regs.map (·.sessionId) = sh.regs.map (·.sessionId) ∧
    sh'.collections.entries ⊆ sh.collections.entries ∧
    (sh.Named → (sh.regs.map (·.sessionId)).Nodup → ∀ d r, sh'.ledger d r ≤ sh.ledger d r) := by
  simp only [regStep, Option.bind_eq_some, Option.map_eq_some'] at h
  obtain ⟨x, hx, pc, hpc, ⟨sh₁, pc₁⟩, hs, rfl⟩ := h
  obtain ⟨h₁, h₂, h₃, h₄⟩ := taskStep_spec hs
  refine ⟨by simp [Shared.sessions_setReg, h₁], by simpa using h₃, fun hsess hu d r => ?_⟩
  have := h₄ (get_own hx hsess hu) d r
  have hreg : sh.taskOf reg = some pc := by
    show (sh.regs.get? reg).bind _ = _
    rw [hx]
    exact hpc
  have hlt : reg < sh₁.regs.length := by
    have := congrArg List.length h₁
    simp only [List.length_map] at this
    exact this ▸ (List.getElem?_eq_some_iff.1 (List.get?_eq_getElem? .. ▸ hx)).1
  simp only [Shared.ledger, Shared.taskOf_setReg_task, Shared.entriesOf_setReg] at this ⊢
  by_cases hr : reg = r
  · subst hr
    simp only [if_true, List.get?_eq_getElem?, List.getElem?_eq_getElem hlt] at this ⊢
    simp only [hreg, Option.some_bind, Option.map_some', Option.getD_some, Shared.doneOf_setReg]
    omega
  · simp only [hr, if_false, h₂, Ne.symm hr, Shared.doneOf_setReg] at this ⊢
    omega

end Steps

/-! ## Runs -/

theorem sum_map_set {α : Type} (f : α → Nat) {l : List α} {i : Nat} {b : α} (hb : l.get? i = some b)
    (a : α) : ((l.set i a).map f).sum + f b = (l.map f).sum + f a := by
  induction l generalizing i with
  | nil => simp at hb
  | cons x l ih =>
    cases i with
    | zero =>
      obtain rfl : x = b := by simpa using hb
      simp only [List.set_cons_zero, List.map_cons, List.sum_cons]
      omega
    | succ i =>
      have := @ih i (by simpa using hb)
      simp only [List.set_cons_succ, List.map_cons, List.sum_cons]
      omega

namespace DanmuService

/-- Everyone's claims on doing duty `d` for registration `reg`. -/
def claims (svc : DanmuService) (d : Duty) (reg : Nat) : Nat :=
  svc.shared.ledger d reg + (svc.threads.map (Thread.owes d reg)).sum

/-- At most one claim on each duty of each registration, none on one not made yet: what
every reachable state satisfies while no two registrations share a session id. -/
def Owned (svc : DanmuService) : Prop :=
  ∀ d reg, svc.claims d reg ≤ if reg < svc.shared.regs.length then 1 else 0

variable {svc svc' : DanmuService} {a : Action}

/-- One step of the service only appends registrations, and every entry it adds names a
registration of its own session. While entries are `Named` and no two registrations share
a session id, the claims on a duty grow only for the registration the step creates. -/
theorem step_spec (h : svc.step a = some svc') :
    (∃ l, svc'.shared.regs.map (·.sessionId) = svc.shared.regs.map (·.sessionId) ++ l) ∧
    (∀ x ∈ svc'.shared.collections.entries, x ∈ svc.shared.collections.entries ∨
      (svc'.shared.regs.map (·.sessionId))[x.2.reg]? = some x.1) ∧
    (svc.shared.Named → (svc.shared.regs.map (·.sessionId)).Nodup → ∀ d r,
      svc'.claims d r ≤ svc.claims d r +
        if svc.shared.regs.length ≤ r ∧ r < svc'.shared.regs.length then 1 else 0) := by
  cases a
  case step i c =>
    simp only [step, Option.bind_eq_some, Option.map_eq_some'] at h
    obtain ⟨t, ht, ⟨sh', t'⟩, hs, rfl⟩ := h
    obtain ⟨h₁, h₂, h₃, -⟩ := threadStep_spec hs
    refine ⟨h₁, h₂, fun _ _ d r => ?_⟩
    have := h₃ d r
    have := sum_map_set (Thread.owes d r) ht t'
    simp only [claims]
    omega
  case task reg c =>
    simp only [step, Option.map_eq_some'] at h
    obtain ⟨sh', hs, rfl⟩ := h
    obtain ⟨h₁, h₂, h₃⟩ := regStep_spec hs
    refine ⟨⟨[], by simpa using h₁⟩, fun x hx => .inl (h₂ hx), fun hn hu d r => ?_⟩
    have := h₃ hn hu d r
    simp only [claims]
    omega
  all_goals
    obtain rfl := Option.some.inj h
    refine ⟨⟨[], by simp⟩, fun x hx => .inl hx, fun _ _ d r => ?_⟩
    simp [claims, Thread.owes, StopPc.owes]

theorem named_new : new.shared.Named := fun _ h => by simp [new] at h

theorem named_step (hn : svc.shared.Named) (h : svc.step a = some svc') : svc'.shared.Named := by
  obtain ⟨⟨l, hl⟩, hent, -⟩ := step_spec h
  intro x hx
  rcases hent x hx with hx | hx
  · have h₀ := hn x hx
    obtain ⟨hlt, -⟩ := List.getElem?_eq_some_iff.1 h₀
    rw [hl, List.getElem?_append_left hlt]
    exact h₀
  · exact hx

theorem owned_new : Owned new := fun d r => by
  cases d <;> simp [new, claims, Shared.ledger, Shared.entriesOf, Shared.taskOf, Shared.doneOf,
    Shared.persistsOf, Shared.stopsOf, HashMap.total]

theorem Owned.step (ho : Owned svc) (hn : svc.shared.Named) (h : svc.step a = some svc')
    (hu : (svc.shared.regs.map (·.sessionId)).Nodup) : Owned svc' := by
  obtain ⟨⟨l, hl⟩, -, hcl⟩ := step_spec h
  have hlen := congrArg List.length hl
  simp only [List.length_map, List.length_append] at hlen
  intro d r
  have h₁ := hcl hn hu d r
  have h₂ := ho d r
  split_ifs at h₁ h₂ ⊢ <;> omega

/-- Every state a run reaches is `Owned`, if no two of its registrations share a session
id. -/
theorem owned_run (acts : List Action) {svc : DanmuService} (h : new.run acts = some svc)
    (hu : (svc.shared.regs.map (·.sessionId)).Nodup) : Owned svc := by
  refine (Reachable.induction (fun svc => svc.shared.Named ∧
      ((svc.shared.regs.map (·.sessionId)).Nodup → Owned svc))
    ⟨named_new, fun _ => owned_new⟩ (fun ⟨hn, ho⟩ hs => ⟨named_step hn hs, fun hu' => ?_⟩) ⟨acts, h⟩).2 hu
  obtain ⟨⟨l, hl⟩, -, -⟩ := step_spec hs
  have hu : _ := (List.nodup_append.1 (hl ▸ hu')).1
  exact (ho hu).step hn hs hu

end DanmuService

/-! ## One registration per start -/

/-- The session a call starts, for a `start_collection`. -/
def Action.startSession : Action → Option String
  | .startCollection S _ _ => some S
  | _ => none

namespace DanmuService

/-- The registrations of session `S`, with the starts of `S` not past their insert, are
at most the `start_collection(S, ..)` calls made. -/
theorem regs_le_starts (acts : List Action) {svc : DanmuService} (h : new.run acts = some svc)
    (S : String) :
    (svc.shared.regs.map (·.sessionId)).count S + (svc.threads.map (Thread.pendingStart S)).sum ≤
      (acts.filterMap Action.startSession).count S := by
  induction acts using List.reverseRecOn generalizing svc with
  | nil =>
    obtain rfl := Option.some.inj h
    simp [new]
  | append_singleton acts a ih =>
    rw [run_append] at h
    obtain ⟨mid, hmid, hs⟩ := Option.bind_eq_some.1 h
    have ih := ih hmid
    rw [List.filterMap_append, List.count_append]
    cases a
    case step i c =>
      simp only [step, Option.bind_eq_some, Option.map_eq_some'] at hs
      obtain ⟨t, ht, ⟨sh', t'⟩, hs, rfl⟩ := hs
      have := (threadStep_spec hs).2.2.2 S
      have := sum_map_set (Thread.pendingStart S) ht t'
      simp only [List.filterMap_cons, Action.startSession, List.filterMap_nil, List.count_nil]
      omega
    case task reg c =>
      simp only [step, Option.map_eq_some'] at hs
      obtain ⟨sh', hs, rfl⟩ := hs
      simp only [(regStep_spec hs).1, List.filterMap_cons, Action.startSession, List.filterMap_nil,
        List.count_nil]
      omega
    all_goals
      obtain rfl := Option.some.inj hs
      simp only [List.filterMap_cons, Action.startSession, List.filterMap_nil, List.map_append,
        List.sum_append, List.map_cons, List.map_nil, List.sum_cons, List.sum_nil, Thread.pendingStart,
        StartPc.pending, List.count_singleton, List.count_nil, beq_iff_eq]
    case startCollection S' X le => split_ifs <;> omega
    all_goals omega

/-- No two registrations share a session id if no two `start_collection` calls do. -/
theorem sessions_nodup (acts : List Action) {svc : DanmuService} (h : new.run acts = some svc)
    (hu : (acts.filterMap Action.startSession).Nodup) : (svc.shared.regs.map (·.sessionId)).Nodup :=
  List.nodup_iff_count_le_one.2 fun S =>
    (Nat.le_add_right _ _).trans ((regs_le_starts acts h S).trans (List.nodup_iff_count_le_one.1 hu S))

end DanmuService

/-! ## At most once -/

namespace Shared

theorem length_persistedBy (sh : Shared) (reg : Nat) : (sh.persistedBy reg).length = sh.persistsOf reg := by
  simp [persistedBy, persistsOf, List.countP_eq_length_filter]

theorem length_stopsOf (sh : Shared) (reg : Nat) :
    ((sh.eventsOf reg).filter (·.isCollectionStopped)).length = sh.stopsOf reg := by
  simp [eventsOf, stopsOf, List.countP_eq_length_filter, List.filter_map, List.filter_filter,
    Function.comp_def, Bool.and_comm]

end Shared

open DanmuService in
/-- While no two `start_collection` calls share a session id, each registration's
statistics are persisted at most once, and its `CollectionStopped` broadcast at most
once, whatever the schedule. -/
theorem teardown_at_most_once (acts : List Action) {svc : DanmuService} (h : new.run acts = some svc)
    (hu : (acts.filterMap Action.startSession).Nodup) (reg : Nat) :
    (svc.shared.persistedBy reg).length ≤ 1 ∧
      ((svc.shared.eventsOf reg).filter (·.isCollectionStopped)).length ≤ 1 := by
  have ho := owned_run acts h (sessions_nodup acts h hu)
  have hd : ∀ d, svc.shared.doneOf d reg ≤ 1 := fun d => by
    have := ho d reg
    simp only [claims, Shared.ledger] at this
    split_ifs at this <;> omega
  rw [Shared.length_persistedBy, Shared.length_stopsOf]
  exact ⟨hd .persist, hd .broadcast⟩

/-- `start_collection("s1", "x1")` as thread `0`; once it returns, `stop_collection("s1")`
as thread `1` removes the entry and cancels; the runner returns, the task's cleanup finds
no entry, and the stop persists and broadcasts. -/
def startThenStop : List Action :=
  [.startCollection "s1" "x1" none, .step 0 .none, .step 0 .none, .step 0 .none,
    .task 0 .connectOk, .step 0 .readyBranch,
    .stopCollection "s1", .step 1 .none, .step 1 .none, .step 1 .none, .step 1 .none, .step 1 .none,
    .task 0 (.runnerOk DanmuStatistics.default), .task 0 .none, .task 0 .none,
    .step 1 .received, .step 1 .none, .step 1 .none]

theorem teardown_at_most_once_startThenStop :
    (((DanmuService.new.run startThenStop).getD DanmuService.new).shared.persistedBy 0).length ≤ 1 ∧
      ((((DanmuService.new.run startThenStop).getD DanmuService.new).shared.eventsOf 0).filter
        (·.isCollectionStopped)).length ≤ 1 :=
  teardown_at_most_once startThenStop rfl (by decide) 0

/-- With a session id reused, the hypothesis above fails and so does the bound. After
`stoppedAndRestarted`, where `s1` is started again while its stop waits, the first
task's runner returns on its cancellation; its exit cleanup removes `collections["s1"]`,
which is the second registration's, so it persists and broadcasts; then the stop
receives the same statistics and does it again. -/
def reusedSessionStop : List Action :=
  stoppedAndRestarted ++
    [.task 0 (.runnerOk finalStats), .task 0 .none, .task 0 .none, .task 0 .none, .task 0 .none,
      .task 0 .none, .task 0 .none,
      .step 1 .received, .step 1 .none, .step 1 .none]

open DanmuService in
theorem reused_session_persisted_twice :
    (new.run reusedSessionStop).map (fun svc =>
        (svc.shared.persistedBy 0, (svc.shared.eventsOf 0).filter (·.isCollectionStopped))) =
      some ([("s1", finalStats), ("s1", finalStats)],
        [.collectionStopped "s1" finalStats, .collectionStopped "s1" finalStats]) := by
  decide

end RustSrec.Danmu
