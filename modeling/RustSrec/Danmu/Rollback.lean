import RustSrec.Danmu.Teardown

/-!
# Rolling back a failed start

`start_collection(S, X)` inserts `collections[S]` and then sets
`sessions_by_streamer[X] = S` before it knows whether its task connects. Every failure
path after that removes the entry and reconciles the index: whichever of the call and
its task removes `collections[S]` first also removes `sessions_by_streamer[X]` if it
still names `S`.

While nothing else runs, the call and its task keep to the `Phase`s of that handover in
every interleaving (`Solo.run`). So once the call has returned its error and its task has
finished, `collections` is as it was, and so is the index except that `X` has no entry any
more (`failed_start_rolls_back`). The reconcile cannot restore what the insert
overwrote: a failed start of a second session of a streamer drops the index entry of the
first (`failed_start_drops_index`).
-/

namespace RustSrec.Danmu

open Danmaku (DanmuStatistics)
open DanmuService

/-! ## Where the call and its task are -/

/-- A start past its spawn of registration `r`'s task and not reconciling: at its
`select!`, at a failure branch's remove, or returned. -/
def StartPc.Waiting (r : Nat) : StartPc → Prop
  | .select reg => reg = r
  | .remove _ | .returned _ => True
  | _ => False

/-- A task that has not yet removed its session's entry. -/
def TaskPc.Holding : TaskPc → Prop
  | .connect | .failReady _ | .failEvent _ | .run | .remove _ => True
  | _ => False

def TaskPc.Reconciling : TaskPc → Prop
  | .reconcile .. => True
  | _ => False

/-- A reconcile of streamer `X`'s index entry that has not finished. -/
def Reconcile.Of (X : String) (rc : Reconcile) : Prop := rc = .get X ∨ rc = .remove X

/-! ## What each step does to the two maps -/

section Steps

variable {sh sh' : Shared} {S X : String} {e : Option String} {c : Choice}

theorem startStep_check {p' : StartPc} (h : startStep sh S X e .check c = some (sh', p')) :
    sh' = sh ∧ ((∃ err, p' = .returned (.err err) ∧ (sh.collections.containsKey S || e.isSome) = true) ∨
      p' = .insert ∧ sh.collections.containsKey S = false ∧ e = none) := by
  cases c
  case none =>
    unfold startStep at h; dsimp only at h
    by_cases hc : sh.collections.containsKey S
    · rw [if_pos hc] at h
      obtain ⟨rfl, rfl⟩ := Prod.mk.inj (Option.some.inj h)
      exact ⟨rfl, .inl ⟨_, rfl, by simp [hc]⟩⟩
    · rw [if_neg hc] at h
      cases e <;> obtain ⟨rfl, rfl⟩ := Prod.mk.inj (Option.some.inj h)
      · exact ⟨rfl, .inr ⟨rfl, by simpa using hc, rfl⟩⟩
      · exact ⟨rfl, .inl ⟨_, rfl, by simp⟩⟩
  all_goals cases h

theorem startStep_insert {p' : StartPc} (h : startStep sh S X e .insert c = some (sh', p')) :
    p' = .insertStreamer sh.regs.length ∧
    sh' = { sh with
      collections := sh.collections.insert S ⟨X, sh.regs.length⟩
      regs := sh.regs ++ [⟨S, X, false, none, none, none, none⟩] } := by
  cases c
  case none => obtain ⟨rfl, rfl⟩ := Prod.mk.inj (Option.some.inj h); exact ⟨rfl, rfl⟩
  all_goals cases h

theorem startStep_insertStreamer {reg : Nat} {p' : StartPc}
    (h : startStep sh S X e (.insertStreamer reg) c = some (sh', p')) :
    p' = .select reg ∧
    sh' = { sh with sessionsByStreamer := sh.sessionsByStreamer.insert X S }.setReg reg
      fun r => { r with task := some .connect } := by
  cases c
  case none => obtain ⟨rfl, rfl⟩ := Prod.mk.inj (Option.some.inj h); exact ⟨rfl, rfl⟩
  all_goals cases h

theorem startStep_select {reg : Nat} {p' : StartPc} (h : startStep sh S X e (.select reg) c = some (sh', p')) :
    (p' = .returned (.ok ()) ∨ ∃ err, p' = .remove err) ∧ sh'.collections = sh.collections ∧
      sh'.sessionsByStreamer = sh.sessionsByStreamer ∧ sh'.taskOf reg = sh.taskOf reg := by
  cases c
  case readyBranch =>
    unfold startStep at h; dsimp only at h
    split at h
    · obtain ⟨rfl, rfl⟩ := Prod.mk.inj (Option.some.inj h)
      exact ⟨.inl rfl, rfl, rfl, rfl⟩
    · obtain ⟨rfl, rfl⟩ := Prod.mk.inj (Option.some.inj h)
      exact ⟨.inr ⟨_, rfl⟩, rfl, rfl, rfl⟩
    · cases h
  case cancelBranch =>
    unfold startStep at h; dsimp only at h
    split at h
    · obtain ⟨rfl, rfl⟩ := Prod.mk.inj (Option.some.inj h)
      exact ⟨.inr ⟨_, rfl⟩, rfl, rfl, rfl⟩
    · cases h
  all_goals cases h

theorem startStep_remove {err : String} {p' : StartPc} (h : startStep sh S X e (.remove err) c = some (sh', p')) :
    sh' = (sh.removeCollection S).1 ∧
    p' = ((sh.collections.get S).map fun st => .reconcile (.get st.streamerId) err).getD (.returned (.err err)) := by
  cases c
  case none => obtain ⟨rfl, rfl⟩ := Prod.mk.inj (Option.some.inj h); exact ⟨rfl, rfl⟩
  all_goals cases h

theorem startStep_reconcile {rc : Reconcile} {err : String} {p' : StartPc}
    (h : startStep sh S X e (.reconcile rc err) c = some (sh', p')) :
    sh' = (reconcileStep sh S rc).1 ∧
    p' = ((reconcileStep sh S rc).2.map fun rc => .reconcile rc err).getD (.returned (.err err)) := by
  cases c
  case none => obtain ⟨rfl, rfl⟩ := Prod.mk.inj (Option.some.inj h); exact ⟨rfl, rfl⟩
  all_goals cases h

theorem taskStep_remove {reg : Nat} {res : Result DanmuStatistics} {q' : TaskPc}
    (h : taskStep sh reg S (.remove res) c = some (sh', q')) :
    sh' = (sh.removeCollection S).1 ∧
    q' = ((sh.collections.get S).map fun st => .reconcile (.get st.streamerId) res).getD (.done res) := by
  cases c
  case none => obtain ⟨rfl, rfl⟩ := Prod.mk.inj (Option.some.inj h); exact ⟨rfl, rfl⟩
  all_goals cases h

theorem taskStep_reconcile {reg : Nat} {rc : Reconcile} {res : Result DanmuStatistics} {q' : TaskPc}
    (h : taskStep sh reg S (.reconcile rc res) c = some (sh', q')) :
    sh' = (reconcileStep sh S rc).1 ∧
    (∀ rc', (reconcileStep sh S rc).2 = some rc' → q' = .reconcile rc' res) ∧
    ((reconcileStep sh S rc).2 = none → ¬ q'.Reconciling) := by
  cases c
  case none =>
    unfold taskStep at h; dsimp only at h
    generalize reconcileStep sh S rc = x at h ⊢
    obtain ⟨sh₁, rc₁⟩ := x
    obtain ⟨rfl, rfl⟩ := Prod.mk.inj (Option.some.inj h)
    refine ⟨rfl, fun rc' h' => ?_, fun h' => ?_⟩ <;> simp only at h' <;> subst h'
    · rfl
    · cases res <;> simp [TaskPc.Reconciling]
  all_goals cases h

/-- A task step other than its remove and its reconcile leaves both maps alone, and a
task that has not removed its entry has not after it either. -/
theorem taskStep_other {reg : Nat} {q q' : TaskPc} (hr : ∀ res, q ≠ .remove res) (hq : ¬ q.Reconciling)
    (h : taskStep sh reg S q c = some (sh', q')) :
    sh'.collections = sh.collections ∧ sh'.sessionsByStreamer = sh.sessionsByStreamer ∧
      ¬ q'.Reconciling ∧ (q.Holding → q'.Holding) := by
  unfold taskStep at h
  split at h
  case h_8 res => exact absurd rfl (hr res)
  case h_9 => exact absurd trivial hq
  case h_13 => cases h
  all_goals
    obtain ⟨rfl, rfl⟩ := Prod.mk.inj (Option.some.inj h)
    exact ⟨rfl, rfl, by simp [TaskPc.Reconciling], by simp [TaskPc.Holding]⟩

/-- A task step: the registration's task, and its step. -/
theorem regStep_eq_some {r : Nat} (h : regStep sh r c = some sh') :
    ∃ x q sh₁ q', sh.regs.get? r = some x ∧ x.task = some q ∧
      taskStep sh r x.sessionId q c = some (sh₁, q') ∧
      sh' = sh₁.setReg r fun y => { y with task := some q' } := by
  simp only [regStep, Option.bind_eq_some, Option.map_eq_some'] at h
  obtain ⟨x, hx, q, hq, ⟨sh₁, q'⟩, hs, rfl⟩ := h
  exact ⟨x, q, sh₁, q', hx, hq, hs, rfl⟩

theorem startStep_returned {res : Result Unit} : startStep sh S X e (.returned res) c = none := by
  cases c <;> rfl

theorem reconcileStep_get_self (h : sh.sessionsByStreamer.get X = some S) :
    reconcileStep sh S (.get X) = (sh, some (.remove X)) := by
  simp [reconcileStep, h]

theorem TaskPc.Holding.not_reconciling {q : TaskPc} (h : q.Holding) : ¬ q.Reconciling := by
  cases q <;> simp_all [TaskPc.Holding, TaskPc.Reconciling]

end Steps

/-! ## The phases of a failed start -/

/-- Where a start of session `S` for streamer `X` (registration `r`) and its task can be,
with the two maps, once the start has inserted `collections[S]` into `C₀` and while
nothing else runs. The entry is held until one of the two removes it; that one
reconciles the index; then both maps are rolled back, the index without `X`. -/
inductive Phase (C₀ : HashMap CollectionState) (B₀ : HashMap String) (S X : String) (r : Nat) :
    StartPc → Option TaskPc → HashMap CollectionState → HashMap String → Prop
  | inserted : Phase C₀ B₀ S X r (.insertStreamer r) none (C₀.insert S ⟨X, r⟩) B₀
  | held {p : StartPc} {q : TaskPc} : p.Waiting r → q.Holding →
      Phase C₀ B₀ S X r p (some q) (C₀.insert S ⟨X, r⟩) (B₀.insert X S)
  | startReconciles {rc : Reconcile} {err : String} {q : TaskPc} : rc.Of X → ¬ q.Reconciling →
      Phase C₀ B₀ S X r (.reconcile rc err) (some q) C₀ (B₀.insert X S)
  | taskReconciles {p : StartPc} {rc : Reconcile} {res : Result DanmuStatistics} : p.Waiting r → rc.Of X →
      Phase C₀ B₀ S X r p (some (.reconcile rc res)) C₀ (B₀.insert X S)
  | rolledBack {p : StartPc} {q : TaskPc} : p.Waiting r → ¬ q.Reconciling →
      Phase C₀ B₀ S X r p (some q) C₀ (B₀.remove X)

section Phases

variable {C₀ : HashMap CollectionState} {B₀ : HashMap String} {S X : String} {r : Nat}
  {sh sh' : Shared} {e : Option String} {c : Choice}

/-- A waiting start's step once the entry is gone: its remove finds nothing. -/
theorem start_step_of_gone (hS : S ∉ C₀.keys) {p p' : StartPc} (hp : p.Waiting r)
    (hC : sh.collections = C₀) (h : startStep sh S X e p c = some (sh', p')) :
    p'.Waiting r ∧ sh'.collections = C₀ ∧ sh'.sessionsByStreamer = sh.sessionsByStreamer ∧
      sh'.taskOf r = sh.taskOf r := by
  cases p with
  | select reg =>
    obtain ⟨hp', h₁, h₂, h₃⟩ := startStep_select h
    obtain rfl : reg = r := hp
    refine ⟨?_, h₁.trans hC, h₂, h₃⟩
    rcases hp' with rfl | ⟨err, rfl⟩ <;> trivial
  | remove err =>
    obtain ⟨rfl, rfl⟩ := startStep_remove h
    rw [hC, HashMap.get_eq_none.2 hS]
    exact ⟨trivial, by simp [Shared.removeCollection, hC, HashMap.remove_of_not_mem hS], rfl, rfl⟩
  | returned res => rw [startStep_returned] at h; cases h
  | _ => cases hp

/-- A task's step, not reconciling, once the entry is gone: its remove finds nothing. -/
theorem task_step_of_gone (hS : S ∉ C₀.keys) {q q' : TaskPc} (hq : ¬ q.Reconciling)
    (hC : sh.collections = C₀) (h : taskStep sh r S q c = some (sh', q')) :
    sh'.collections = C₀ ∧ sh'.sessionsByStreamer = sh.sessionsByStreamer ∧ ¬ q'.Reconciling := by
  by_cases hr : ∃ res, q = .remove res
  · obtain ⟨res, rfl⟩ := hr
    obtain ⟨rfl, rfl⟩ := taskStep_remove h
    rw [hC, HashMap.get_eq_none.2 hS]
    exact ⟨by simp [Shared.removeCollection, hC, HashMap.remove_of_not_mem hS], rfl,
      by simp [TaskPc.Reconciling]⟩
  · obtain ⟨h₁, h₂, h₃, -⟩ := taskStep_other (fun res e => hr ⟨res, e⟩) hq h
    exact ⟨h₁.trans hC, h₂, h₃⟩

@[simp] theorem setReg_sessionsByStreamer (reg : Nat) (f : Registration → Registration) :
    (sh.setReg reg f).sessionsByStreamer = sh.sessionsByStreamer := rfl

/-- The start's step keeps the phase. -/
theorem Phase.start_step (hS : S ∉ C₀.keys) {p p' : StartPc} {q : Option TaskPc}
    {C : HashMap CollectionState} {B : HashMap String} (hφ : Phase C₀ B₀ S X r p q C B)
    (hq : sh.taskOf r = q) (hC : sh.collections = C) (hB : sh.sessionsByStreamer = B)
    (hr : r < sh.regs.length) (h : startStep sh S X e p c = some (sh', p')) :
    Phase C₀ B₀ S X r p' (sh'.taskOf r) sh'.collections sh'.sessionsByStreamer := by
  cases hφ with
  | inserted =>
    obtain ⟨rfl, rfl⟩ := startStep_insertStreamer h
    have : (sh.regs.get? r).bind (fun _ => some TaskPc.connect) = some .connect := by
      rw [List.get?_eq_getElem?, List.getElem?_eq_getElem hr]; rfl
    rw [Shared.taskOf_setReg_task, if_pos rfl, this, Shared.setReg_collections, hC,
      setReg_sessionsByStreamer]
    simp only [hB]
    exact .held rfl trivial
  | held hp hq' =>
    cases p with
    | select reg =>
      obtain ⟨hp', h₁, h₂, h₃⟩ := startStep_select h
      obtain rfl : reg = r := hp
      rw [h₁, h₂, h₃, hq, hC, hB]
      exact .held (by rcases hp' with rfl | ⟨err, rfl⟩ <;> trivial) hq'
    | remove err =>
      obtain ⟨rfl, rfl⟩ := startStep_remove h
      rw [hC, HashMap.get_insert_self]
      simp only [Shared.removeCollection, hC, HashMap.remove_insert, HashMap.remove_of_not_mem hS,
        Option.map_some', Option.getD_some, hB]
      change Phase C₀ B₀ S X r _ (sh.taskOf r) _ _
      rw [hq]
      exact .startReconciles (.inl rfl) hq'.not_reconciling
    | returned res => rw [startStep_returned] at h; cases h
    | _ => cases hp
  | startReconciles hrc hq' =>
    obtain ⟨rfl, rfl⟩ := startStep_reconcile h
    rcases hrc with rfl | rfl
    · rw [reconcileStep_get_self (by rw [hB]; exact HashMap.get_insert_self _ _ _)]
      rw [hq, hC, hB]
      exact .startReconciles (.inr rfl) hq'
    · simp only [reconcileStep, Option.map_none', Option.getD_none, hB, HashMap.remove_insert]
      change Phase C₀ B₀ S X r _ (sh.taskOf r) sh.collections _
      rw [hq, hC]
      exact .rolledBack trivial hq'
  | taskReconciles hp hrc =>
    obtain ⟨hp', h₁, h₂, h₃⟩ := start_step_of_gone hS hp hC h
    rw [h₁, h₂, h₃, hq, hB]
    exact .taskReconciles hp' hrc
  | rolledBack hp hq' =>
    obtain ⟨hp', h₁, h₂, h₃⟩ := start_step_of_gone hS hp hC h
    rw [h₁, h₂, h₃, hq, hB]
    exact .rolledBack hp' hq'

/-- The task's step keeps the phase. -/
theorem Phase.task_step (hS : S ∉ C₀.keys) {p : StartPc} {q q' : TaskPc}
    {C : HashMap CollectionState} {B : HashMap String} (hφ : Phase C₀ B₀ S X r p (some q) C B)
    (hC : sh.collections = C) (hB : sh.sessionsByStreamer = B)
    (h : taskStep sh r S q c = some (sh', q')) :
    Phase C₀ B₀ S X r p (some q') sh'.collections sh'.sessionsByStreamer := by
  cases hφ with
  | held hp hq =>
    by_cases hr : ∃ res, q = .remove res
    · obtain ⟨res, rfl⟩ := hr
      obtain ⟨rfl, rfl⟩ := taskStep_remove h
      rw [hC, HashMap.get_insert_self]
      simp only [Shared.removeCollection, hC, HashMap.remove_insert, HashMap.remove_of_not_mem hS,
        Option.map_some', Option.getD_some, hB]
      exact .taskReconciles hp (.inl rfl)
    · obtain ⟨h₁, h₂, -, h₄⟩ := taskStep_other (fun res e => hr ⟨res, e⟩) hq.not_reconciling h
      rw [h₁, h₂, hC, hB]
      exact .held hp (h₄ hq)
  | startReconciles hrc hq =>
    obtain ⟨h₁, h₂, h₃⟩ := task_step_of_gone hS hq hC h
    rw [h₁, h₂, hB]
    exact .startReconciles hrc h₃
  | taskReconciles hp hrc =>
    obtain ⟨rfl, h₁, h₂⟩ := taskStep_reconcile h
    rcases hrc with rfl | rfl
    · have hget := reconcileStep_get_self
        (show sh.sessionsByStreamer.get X = some S by rw [hB]; exact HashMap.get_insert_self _ _ _)
      rw [h₁ _ (by rw [hget]), hget, hC, hB]
      exact .taskReconciles hp (.inr rfl)
    · simp only [reconcileStep, hB, hC, HashMap.remove_insert]
      exact .rolledBack hp (h₂ rfl)
  | rolledBack hp hq =>
    obtain ⟨h₁, h₂, h₃⟩ := task_step_of_gone hS hq hC h
    rw [h₁, h₂, hB]
    exact .rolledBack hp h₃

/-- A start that has returned, with its task finished or never spawned, has rolled back. -/
theorem Phase.returned {res : Result Unit} {q : Option TaskPc} {C : HashMap CollectionState}
    {B : HashMap String} (hφ : Phase C₀ B₀ S X r (.returned res) q C B)
    (hq : q = none ∨ q = some .finished) : C = C₀ ∧ B = B₀.remove X := by
  cases hφ with
  | held _ hq' => obtain h | h := hq <;> cases h; exact hq'.elim
  | taskReconciles _ _ => obtain h | h := hq <;> cases h
  | rolledBack _ _ => exact ⟨rfl, rfl⟩

theorem Phase.ne_insert {p : StartPc} {q : Option TaskPc} {C : HashMap CollectionState}
    {B : HashMap String} (hφ : Phase C₀ B₀ S X r p q C B) : p ≠ .insert := by
  rintro rfl
  cases hφ <;> assumption

end Phases

/-! ## A start alone with its task -/

/-- Where a start of `S` is before its insert, on maps `C₀`: at its check, past it
(so `S` is new and the lookups succeeded), or returned with the check's error. -/
def StartPc.Unstarted (C₀ : HashMap CollectionState) (S : String) (e : Option String) :
    StartPc → Prop
  | .check => True
  | .insert => S ∉ C₀.keys ∧ e = none
  | .returned (.err _) => (C₀.containsKey S || e.isSome) = true
  | _ => False

/-- Call `i`, a start of `S` for `X` made on maps `C₀` and `B₀` with `r` registrations,
when only it and its task have stepped since: before its insert nothing has changed;
after it, registration `r` is its own and the two are in a `Phase`. -/
inductive Solo (C₀ : HashMap CollectionState) (B₀ : HashMap String) (S X : String)
    (e : Option String) (i r : Nat) : DanmuService → Prop
  | unstarted {svc : DanmuService} {p : StartPc} : svc.threads.get? i = some (.start S X e p) →
      p.Unstarted C₀ S e → svc.shared.regs.length = r → svc.shared.collections = C₀ →
      svc.shared.sessionsByStreamer = B₀ → Solo C₀ B₀ S X e i r svc
  | started {svc : DanmuService} {p : StartPc} : svc.threads.get? i = some (.start S X e p) →
      S ∉ C₀.keys → e = none → (svc.shared.regs.map (·.sessionId))[r]? = some S →
      Phase C₀ B₀ S X r p (svc.shared.taskOf r) svc.shared.collections
        svc.shared.sessionsByStreamer →
      Solo C₀ B₀ S X e i r svc

/-- A step of call `i` or of registration `r`'s task. -/
def Action.Of (i r : Nat) : Action → Bool
  | .step j _ => j == i
  | .task k _ => k == r
  | _ => false

section Solo

variable {C₀ : HashMap CollectionState} {B₀ : HashMap String} {S X : String} {e : Option String}
  {i r : Nat} {svc svc' : DanmuService} {c : Choice}

theorem step_start {p : StartPc} (ht : svc.threads.get? i = some (.start S X e p))
    (h : svc.step (.step i c) = some svc') :
    ∃ sh' p', startStep svc.shared S X e p c = some (sh', p') ∧
      svc' = ⟨sh', svc.threads.set i (.start S X e p')⟩ ∧
      (svc.threads.set i (.start S X e p')).get? i = some (.start S X e p') := by
  simp only [step, ht, Option.some_bind, threadStep, Option.map_map, Option.map_eq_some'] at h
  obtain ⟨⟨sh', p'⟩, hs, rfl⟩ := h
  refine ⟨sh', p', hs, rfl, ?_⟩
  simp only [List.get?_eq_getElem?] at ht ⊢
  simp [(List.getElem?_eq_some_iff.1 ht).1]

theorem regStep_own {sh sh' : Shared} {q : TaskPc} (hs : (sh.regs.map (·.sessionId))[r]? = some S)
    (hq : sh.taskOf r = some q) (h : regStep sh r c = some sh') :
    ∃ sh₁ q', taskStep sh r S q c = some (sh₁, q') ∧ sh'.collections = sh₁.collections ∧
      sh'.sessionsByStreamer = sh₁.sessionsByStreamer ∧ sh'.taskOf r = some q' ∧
      sh'.regs.map (·.sessionId) = sh.regs.map (·.sessionId) := by
  obtain ⟨x, q₀, sh₁, q', hx, hxq, hts, rfl⟩ := regStep_eq_some h
  have hq₀ : some q₀ = some q := by rw [← hq, Shared.taskOf, hx]; exact hxq.symm
  rw [List.getElem?_map, ← List.get?_eq_getElem?, hx] at hs
  cases Option.some.inj hq₀
  cases Option.some.inj hs
  obtain ⟨h₁, h₂, -, -⟩ := taskStep_spec hts
  obtain ⟨y, hy, -⟩ := Option.bind_eq_some.1 ((h₂ r).trans hq)
  refine ⟨sh₁, q', hts, rfl, rfl, ?_, ?_⟩
  · rw [Shared.taskOf_setReg_task, if_pos rfl, hy]; rfl
  · exact (Shared.sessions_setReg sh₁ r (fun y => { y with task := some q' }) fun _ => rfl).trans h₁

theorem Solo.unstarted_step {p : StartPc} (ht : svc.threads.get? i = some (.start S X e p))
    (hp : p.Unstarted C₀ S e) (hr : svc.shared.regs.length = r) (hC : svc.shared.collections = C₀)
    (hB : svc.shared.sessionsByStreamer = B₀) (h : svc.step (.step i c) = some svc') :
    Solo C₀ B₀ S X e i r svc' := by
  obtain ⟨sh', p', hstep, rfl, ht'⟩ := step_start ht h
  cases p with
  | check =>
    obtain ⟨rfl, ⟨err, rfl, hc⟩ | ⟨rfl, hc, he⟩⟩ := startStep_check hstep
    · exact .unstarted ht' (hC ▸ hc) hr hC hB
    · exact .unstarted ht' ⟨hC ▸ HashMap.containsKey_eq_false.1 hc, he⟩ hr hC hB
  | insert =>
    obtain ⟨rfl, rfl⟩ := startStep_insert hstep
    subst hr hC hB
    refine .started ht' hp.1 hp.2 (by simp) ?_
    rw [Shared.taskOf_append _ _ _ _ rfl]
    have : svc.shared.taskOf svc.shared.regs.length = none := by
      simp [Shared.taskOf, List.get?_eq_getElem?]
    rw [this]
    exact .inserted
  | returned res => rw [startStep_returned] at hstep; cases hstep
  | _ => cases hp

theorem Solo.started_step {p : StartPc} (ht : svc.threads.get? i = some (.start S X e p))
    (hS : S ∉ C₀.keys) (he : e = none) (hses : (svc.shared.regs.map (·.sessionId))[r]? = some S)
    (hφ : Phase C₀ B₀ S X r p (svc.shared.taskOf r) svc.shared.collections
      svc.shared.sessionsByStreamer)
    (h : svc.step (.step i c) = some svc') : Solo C₀ B₀ S X e i r svc' := by
  obtain ⟨sh', p', hstep, rfl, ht'⟩ := step_start ht h
  have hr : r < svc.shared.regs.length := by
    simpa using (List.getElem?_eq_some_iff.1 hses).1
  refine .started ht' hS he ?_ (hφ.start_step hS rfl rfl rfl hr hstep)
  rw [(startStep_spec hstep).1, if_neg hφ.ne_insert, List.append_nil, hses]

theorem Solo.task_step (hS : S ∉ C₀.keys) (he : e = none) {p : StartPc}
    (ht : svc.threads.get? i = some (.start S X e p))
    (hses : (svc.shared.regs.map (·.sessionId))[r]? = some S)
    (hφ : Phase C₀ B₀ S X r p (svc.shared.taskOf r) svc.shared.collections
      svc.shared.sessionsByStreamer)
    (h : svc.step (.task r c) = some svc') : Solo C₀ B₀ S X e i r svc' := by
  obtain ⟨sh', hreg, rfl⟩ := Option.map_eq_some'.1 h
  obtain ⟨x, q, -, -, hx, hxq, -, -⟩ := regStep_eq_some hreg
  have hq : svc.shared.taskOf r = some q := by rw [Shared.taskOf, hx]; exact hxq
  obtain ⟨sh₁, q', hts, hC, hB, hT, hses'⟩ := regStep_own hses hq hreg
  rw [hq] at hφ
  refine .started ht hS he (by rw [← hses, hses']) ?_
  rw [hT, hC, hB]
  exact hφ.task_step hS rfl rfl hts

/-- Call `i`'s steps and its task's keep `Solo`. -/
theorem Solo.step (hs : Solo C₀ B₀ S X e i r svc) {a : Action} (ha : a.Of i r = true)
    (h : svc.step a = some svc') : Solo C₀ B₀ S X e i r svc' := by
  cases a with
  | step j c =>
    obtain rfl : j = i := by simpa [Action.Of] using ha
    cases hs with
    | unstarted ht hp hr hC hB => exact Solo.unstarted_step ht hp hr hC hB h
    | started ht hS he hses hφ => exact Solo.started_step ht hS he hses hφ h
  | task k c =>
    obtain rfl : k = r := by simpa [Action.Of] using ha
    cases hs with
    | unstarted ht hp hr hC hB =>
      obtain ⟨sh', hreg, -⟩ := Option.map_eq_some'.1 h
      obtain ⟨x, -, -, -, hx, -⟩ := regStep_eq_some hreg
      simp [List.get?_eq_getElem?, ← hr] at hx
    | started ht hS he hses hφ => exact Solo.task_step hS he ht hses hφ h
  | _ => cases ha

theorem Solo.run (hs : Solo C₀ B₀ S X e i r svc) (acts : List Action)
    (ha : ∀ a ∈ acts, a.Of i r = true) (h : svc.run acts = some svc') :
    Solo C₀ B₀ S X e i r svc' := by
  induction acts generalizing svc with
  | nil => exact Option.some.inj h ▸ hs
  | cons a acts ih =>
    obtain ⟨mid, hmid, h⟩ := Option.bind_eq_some.1 h
    exact ih (hs.step (ha a (.head _)) hmid) (fun a h => ha a (.tail _ h)) h

end Solo

/-! ## A failed second start -/

/-- After `startedS1`, `start_collection("s2", "x1")` as thread `1`, with registration
`1`, and nothing else: its task's connect fails, the call takes the ready branch,
removes `collections["s2"]` and reconciles the index, and the task's cleanup then finds
nothing to remove. -/
def failedSecondStart : List Action :=
  [.startCollection "s2" "x1" none, .step 1 .none, .step 1 .none, .step 1 .none,
    .task 1 (.connectErr "refused"), .task 1 .none,
    .step 1 .readyBranch, .step 1 .none, .step 1 .none, .step 1 .none,
    .task 1 .none, .task 1 .none]

theorem failed_start_drops_index :
    (new.run startedS1).map (fun svc => (svc.shared.collections, svc.shared.sessionsByStreamer)) =
      some (⟨[("s1", ⟨"x1", 0⟩)]⟩, ⟨[("x1", "s1")]⟩) ∧
    (new.run (startedS1 ++ failedSecondStart)).map (fun svc =>
        (svc.shared.collections, svc.shared.sessionsByStreamer, svc.threads.get? 1,
          (svc.shared.regs.get? 1).bind (·.task))) =
      some (⟨[("s1", ⟨"x1", 0⟩)]⟩, ⟨[]⟩, some (.start "s2" "x1" none (.returned (.err "refused"))),
        some .finished) := by
  decide

/-! ## Every failed start rolls back -/

/-- `start_collection(S, X)` made on `svc`, with only it and its task stepped since: once
it has returned an error and its task, if it spawned one, has finished, `collections` is
as it was, and so is `sessions_by_streamer` unless the call got as far as its insert.
Then the index has lost `X`'s entry, whichever session it named before. -/
theorem failed_start_rolls_back (svc : DanmuService) (S X : String) (e : Option String)
    (acts : List Action) (svc' : DanmuService) (err : String)
    (ha : ∀ a ∈ acts, a.Of svc.threads.length svc.shared.regs.length = true)
    (h : svc.run (.startCollection S X e :: acts) = some svc')
    (hret : svc'.threads.get? svc.threads.length = some (.start S X e (.returned (.err err))))
    (hdone : svc'.shared.taskOf svc.shared.regs.length = none ∨
      svc'.shared.taskOf svc.shared.regs.length = some .finished) :
    svc'.shared.collections = svc.shared.collections ∧
    svc'.shared.sessionsByStreamer =
      if (svc.shared.collections.containsKey S || e.isSome) then svc.shared.sessionsByStreamer
      else svc.shared.sessionsByStreamer.remove X := by
  have h₀ : Solo svc.shared.collections svc.shared.sessionsByStreamer S X e svc.threads.length
      svc.shared.regs.length { svc with threads := svc.threads ++ [.start S X e .check] } :=
    .unstarted (by simp [List.get?_eq_getElem?]) (show StartPc.check.Unstarted _ S e from trivial)
      rfl rfl rfl
  cases h₀.run acts ha h with
  | unstarted ht hp _ hC hB =>
    cases hret.symm.trans ht
    exact ⟨hC, by rw [if_pos (show _ = true from hp), hB]⟩
  | started ht hS he _ hφ =>
    cases hret.symm.trans ht
    rw [he, if_neg (by simpa using HashMap.containsKey_eq_false.2 hS)]
    exact hφ.returned hdone

theorem failed_start_rolls_back_after_s1 :
    let svc := (new.run startedS1).getD new
    let svc' := (svc.run failedSecondStart).getD new
    svc'.shared.collections = svc.shared.collections ∧
    svc'.shared.sessionsByStreamer =
      if (svc.shared.collections.containsKey "s2" || (none : Option String).isSome) then
        svc.shared.sessionsByStreamer
      else svc.shared.sessionsByStreamer.remove "x1" :=
  failed_start_rolls_back _ "s2" "x1" none failedSecondStart.tail _ "refused" (by decide) (by decide)
    (by decide) (by decide)

end RustSrec.Danmu
