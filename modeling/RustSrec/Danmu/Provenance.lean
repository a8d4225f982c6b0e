import Mathlib.Algebra.Order.BigOperators.Group.List
import Mathlib.Algebra.Order.Ring.Nat
import RustSrec.Danmu.Teardown

/-!
# What a stop reports

`persist_statistics` and `CollectionStopped` carry statistics, and the code takes them
from one place: what the runner returned as `Ok`, which the task passes to its exit
cleanup, or sends on `done_tx` to `stop_collection`. Whatever the schedule, and whether
or not session ids are reused, every persisted record and every `CollectionStopped`
names a registration of its session whose runner returned exactly those statistics
(`reported_runner_result`). A stop that times out, or receives an `Err`, returns
`DanmuStatistics::default()` and reports nothing.

The proof keeps, for each registration, where its task is in agreement with what its
runner returned (`Registration.Consistent`), and for each stop, that the state it holds
is a registration of its session and, after its `done_rx` receive, what it received. A
runner's result is written once: a registration's task is spawned once (`Spawned`), and
it leaves `run` when the result is written.
-/

namespace RustSrec.Danmu

open Danmaku (DanmuStatistics)

theorem getElem?_of_mem_modify {α : Type} {f : α → α} {l : List α} {i : Nat} {y : α}
    (h : y ∈ l.modify f i) : y ∈ l ∨ ∃ x, l[i]? = some x ∧ y = f x := by
  induction l generalizing i with
  | nil => simp at h
  | cons a l ih =>
    cases i with
    | zero =>
      simp only [List.modify_zero_cons, List.mem_cons] at h
      rcases h with rfl | h
      · exact .inr ⟨a, by simp, rfl⟩
      · exact .inl (List.mem_cons_of_mem _ h)
    | succ i =>
      simp only [List.modify_succ_cons, List.mem_cons] at h
      rcases h with rfl | h
      · exact .inl (List.mem_cons_self _ _)
      · rcases ih h with h | h
        · exact .inl (List.mem_cons_of_mem _ h)
        · exact .inr (by simpa using h)

theorem set_get?_self {α : Type} {l : List α} {i : Nat} {x : α} (h : l.get? i = some x) :
    l.set i x = l := by
  apply List.ext_getElem?
  intro n
  rw [List.getElem?_set]
  by_cases hn : i = n
  · subst hn
    simp only [List.get?_eq_getElem?] at h
    simp [h, (List.getElem?_eq_some_iff.1 h).1]
  · simp [hn]

/-! ## Registrations -/

/-- The statistics a task carries once its runner returned them as `Ok`. -/
def TaskPc.carried : TaskPc → Option DanmuStatistics
  | .remove (.ok s) | .reconcile _ (.ok s) | .persist s | .stopped s | .done (.ok s) => some s
  | _ => none

/-- The registration's task has not left `runner.run`: not spawned, connecting, or
running. -/
def Registration.running (x : Registration) : Bool :=
  match x.task with
  | none | some .connect | some .run => true
  | _ => false

/-- A registration's fields agree with where its task is. -/
structure Registration.Consistent (x : Registration) : Prop where
  /-- The runner has not returned while its task has not left `run`. -/
  fresh : x.running → x.result = none
  /-- What the task carries, its runner returned. -/
  carried : ∀ s, x.task.bind TaskPc.carried = some s → x.result = some (.ok s)
  /-- What the task sent on `done_tx`, its runner returned. -/
  done : ∀ s, x.done = some (.ok s) → x.result = some (.ok s)

namespace Shared

/-- The session of registration `reg`. -/
def sessionOf (sh : Shared) (reg : Nat) : Option String := (sh.regs.map (·.sessionId))[reg]?

/-- What registration `reg`'s runner returned. -/
def resultOf (sh : Shared) (reg : Nat) : Option (Result DanmuStatistics) :=
  (sh.regs.get? reg).bind (·.result)

/-- Registration `reg` is of session `S`, and its runner returned `Ok(s)`. -/
def Reports (sh : Shared) (reg : Nat) (S : String) (s : DanmuStatistics) : Prop :=
  sh.sessionOf reg = some S ∧ sh.resultOf reg = some (.ok s)

/-- `sh'` keeps every session and every runner result `sh` records. -/
def Extends (sh sh' : Shared) : Prop :=
  ∀ reg, (∀ S, sh.sessionOf reg = some S → sh'.sessionOf reg = some S) ∧
    ∀ v, sh.resultOf reg = some v → sh'.resultOf reg = some v

theorem Extends.refl (sh : Shared) : sh.Extends sh := fun _ => ⟨fun _ => id, fun _ => id⟩

theorem Extends.trans {sh₁ sh₂ sh₃ : Shared} (h₁ : sh₁.Extends sh₂) (h₂ : sh₂.Extends sh₃) :
    sh₁.Extends sh₃ :=
  fun reg => ⟨fun S h => (h₂ reg).1 S ((h₁ reg).1 S h), fun v h => (h₂ reg).2 v ((h₁ reg).2 v h)⟩

theorem Reports.mono {sh sh' : Shared} {reg : Nat} {S : String} {s : DanmuStatistics}
    (h : sh.Reports reg S s) (he : sh.Extends sh') : sh'.Reports reg S s :=
  ⟨(he reg).1 S h.1, (he reg).2 _ h.2⟩

/-- An update of registration `reg` that keeps its session, and its runner's result once
there is one. -/
theorem extends_setReg (sh : Shared) (reg : Nat) (f : Registration → Registration)
    (hs : ∀ x, (f x).sessionId = x.sessionId) (hr : ∀ x v, x.result = some v → (f x).result = some v) :
    sh.Extends (sh.setReg reg f) := by
  intro r
  simp only [sessionOf, resultOf, setReg, List.get?_eq_getElem?, List.getElem?_map,
    List.getElem?_modify]
  cases sh.regs[r]? with
  | none => simp
  | some x => by_cases h : reg = r <;> simp_all

theorem setReg_regs {sh : Shared} {reg : Nat} {x : Registration} (hx : sh.regs.get? reg = some x)
    (f : Registration → Registration) : (sh.setReg reg f).regs = sh.regs.set reg (f x) := by
  rw [setReg, List.modify_eq_set_get?, hx]
  rfl

theorem sessionOf_eq (sh : Shared) (reg : Nat) : sh.sessionOf reg = (sh.regs.get? reg).map (·.sessionId) := by
  simp [sessionOf]

/-- Registration `reg`, which is there, replaced by `y`. -/
theorem get?_of_set {sh sh' : Shared} {reg : Nat} {x y : Registration} (hx : sh.regs.get? reg = some x)
    (h : sh'.regs = sh.regs.set reg y) (r : Nat) :
    sh'.regs.get? r = if reg = r then some y else sh.regs.get? r := by
  have hlt := (List.getElem?_eq_some_iff.1 (List.get?_eq_getElem? .. ▸ hx)).1
  simp only [h, List.get?_eq_getElem?, List.getElem?_set, hlt, if_true]

/-- A step that keeps the registrations. -/
theorem extends_of_regs {sh sh' : Shared} (h : sh'.regs = sh.regs) : sh.Extends sh' := by
  intro r
  simp [sessionOf, resultOf, h]

/-- Each registration's fields keep agreeing under an update that keeps them. -/
theorem consistent_setReg {sh : Shared} {reg : Nat} {f : Registration → Registration}
    (hc : ∀ x ∈ sh.regs, x.Consistent) (hf : ∀ x, sh.regs.get? reg = some x → (f x).Consistent) :
    ∀ y ∈ (sh.setReg reg f).regs, y.Consistent := by
  intro y hy
  rcases getElem?_of_mem_modify hy with hy | ⟨x, hx, rfl⟩
  · exact hc y hy
  · exact hf x (by simpa using hx)

end Shared

/-- `1` for a `start_collection` whose next step spawns registration `reg`'s task. -/
def StartPc.spawns (reg : Nat) : StartPc → Nat
  | .insertStreamer r => if r = reg then 1 else 0
  | _ => 0

/-- The same, for any call. -/
def Thread.spawns (reg : Nat) : Thread → Nat
  | .start _ _ _ pc => pc.spawns reg
  | _ => 0

/-! ## Stops -/

/-- What a stop of session `S` knows: the state it holds is a registration of `S`, and
the statistics it is to persist and broadcast that registration's runner returned. -/
def StopPc.Sound (sh : Shared) (S : String) : StopPc → Prop
  | .reconcile st _ | .sendStop st | .cancel st | .await st => sh.sessionOf st.reg = some S
  | .persist st s | .stopped st s => sh.Reports st.reg S s
  | .remove | .returned _ => True

def Thread.Sound (sh : Shared) : Thread → Prop
  | .stop S pc | .shutdown (.stopping S pc _) => pc.Sound sh S
  | _ => True

theorem StopPc.Sound.mono {sh sh' : Shared} {S : String} {pc : StopPc} (h : pc.Sound sh S)
    (he : sh.Extends sh') : pc.Sound sh' S := by
  cases pc <;> first | trivial | exact (he _).1 _ h | exact Shared.Reports.mono h he

theorem Thread.Sound.mono {sh sh' : Shared} {t : Thread} (h : t.Sound sh) (he : sh.Extends sh') :
    t.Sound sh' := by
  rcases t with _ | ⟨S, pc⟩ | ⟨_ | _ | ⟨S, pc, _⟩ | _⟩
  all_goals first | trivial | exact StopPc.Sound.mono h he

/-! ## One step of each thread -/

section Steps

variable {sh sh' : Shared} {S : String} {c : Choice}

/-- One step of `stop_collection` keeps every session and runner result and each
registration's agreement; what it persists or broadcasts, it received on `done_rx` from
a registration of its own session, whose runner returned it. -/
theorem stopStep_sound {pc pc' : StopPc} (h : stopStep sh S pc c = some (sh', pc'))
    (hnamed : sh.Named)
    (hcons : ∀ x ∈ sh.regs, x.Consistent) (hpc : pc.Sound sh S) :
    sh.Extends sh' ∧ (∀ x ∈ sh'.regs, x.Consistent) ∧ pc'.Sound sh' S ∧
    (∀ p ∈ sh'.persisted, p ∈ sh.persisted ∨ sh'.Reports p.2.2 p.1 p.2.1) ∧
    ∀ e ∈ sh'.events, e ∈ sh.events ∨ ∀ S s, e.1 = .collectionStopped S s → sh'.Reports e.2 S s := by
  unfold stopStep at h
  split at h
  case h_1 =>
    obtain ⟨rfl, rfl⟩ := Prod.mk.inj (Option.some.inj h)
    refine ⟨Shared.extends_of_regs rfl, hcons, ?_, fun p hp => .inl hp, fun e he => .inl he⟩
    cases hg : sh.collections.get S with
    | none => trivial
    | some st => exact hnamed _ (HashMap.mem_entries_of_get hg)
  case h_2 st rc =>
    simp only [Option.some.injEq, Prod.mk.injEq] at h
    obtain ⟨rfl, rfl⟩ := h
    obtain ⟨sbs, hsbs⟩ := reconcileStep_eq sh S rc
    rw [hsbs]
    refine ⟨Shared.extends_of_regs rfl, hcons, ?_, fun p hp => .inl hp, fun e he => .inl he⟩
    cases (reconcileStep sh S rc).2 <;> exact hpc
  case h_3 st =>
    obtain ⟨rfl, rfl⟩ := Prod.mk.inj (Option.some.inj h)
    exact ⟨Shared.Extends.refl _, hcons, hpc, fun p hp => .inl hp, fun e he => .inl he⟩
  case h_4 st =>
    obtain ⟨rfl, rfl⟩ := Prod.mk.inj (Option.some.inj h)
    have he := Shared.extends_setReg sh st.reg (fun r => { r with cancelled := true }) (fun _ => rfl)
      fun _ _ => id
    refine ⟨he, Shared.consistent_setReg hcons fun x hx => ?_, (he _).1 _ hpc, fun p hp => .inl hp,
      fun e he => .inl he⟩
    have := hcons x (List.get?_mem hx)
    exact ⟨this.fresh, this.carried, this.done⟩
  case h_5 st =>
    split at h
    · rename_i s hd
      obtain ⟨rfl, rfl⟩ := Prod.mk.inj (Option.some.inj h)
      obtain ⟨x, hx, hxd⟩ := Option.bind_eq_some.1 hd
      refine ⟨Shared.Extends.refl _, hcons, ⟨hpc, ?_⟩, fun p hp => .inl hp, fun e he => .inl he⟩
      show (sh.regs.get? st.reg).bind _ = _
      rw [hx]
      exact (hcons x (List.get?_mem hx)).done s hxd
    · obtain ⟨rfl, rfl⟩ := Prod.mk.inj (Option.some.inj h)
      exact ⟨Shared.Extends.refl _, hcons, trivial, fun p hp => .inl hp, fun e he => .inl he⟩
    · cases h
  case h_6 =>
    obtain ⟨rfl, rfl⟩ := Prod.mk.inj (Option.some.inj h)
    exact ⟨Shared.Extends.refl _, hcons, trivial, fun p hp => .inl hp, fun e he => .inl he⟩
  case h_7 st s =>
    obtain ⟨rfl, rfl⟩ := Prod.mk.inj (Option.some.inj h)
    have he := Shared.extends_of_regs (Shared.persist_regs sh st.reg S s)
    refine ⟨he, hcons, hpc.mono he, fun p hp => ?_, fun e he => .inl he⟩
    simp only [Shared.persist, List.mem_append, List.mem_singleton] at hp
    rcases hp with hp | rfl
    · exact .inl hp
    · exact .inr (hpc.mono he)
  case h_8 st s =>
    obtain ⟨rfl, rfl⟩ := Prod.mk.inj (Option.some.inj h)
    have he := Shared.extends_of_regs (Shared.emit_regs sh st.reg (.collectionStopped S s))
    refine ⟨he, hcons, trivial, fun p hp => .inl hp, fun e he' => ?_⟩
    simp only [Shared.emit, List.mem_append, List.mem_singleton] at he'
    rcases he' with he' | rfl
    · exact .inl he'
    · refine .inr fun S' s' hs => ?_
      obtain ⟨rfl, rfl⟩ : S = S' ∧ s = s' := by simpa using hs
      exact hpc.mono he
  case h_9 => cases h

theorem Thread.sound_afterStop {sh : Shared} {s : String} {rest : List String} {pc : StopPc}
    (h : pc.Sound sh s) : Thread.Sound sh (.shutdown (afterStop s rest pc)) := by
  cases pc
  case returned => cases rest <;> trivial
  all_goals exact h

/-- `shutdown()` runs stops. -/
theorem shutdownStep_sound {pc pc' : ShutdownPc} (h : shutdownStep sh pc c = some (sh', pc'))
    (hnamed : sh.Named)
    (hcons : ∀ x ∈ sh.regs, x.Consistent) (hpc : (Thread.shutdown pc).Sound sh) :
    sh.Extends sh' ∧ (∀ x ∈ sh'.regs, x.Consistent) ∧ (Thread.shutdown pc').Sound sh' ∧
    (∀ p ∈ sh'.persisted, p ∈ sh.persisted ∨ sh'.Reports p.2.2 p.1 p.2.1) ∧
    ∀ e ∈ sh'.events, e ∈ sh.events ∨ ∀ S s, e.1 = .collectionStopped S s → sh'.Reports e.2 S s := by
  unfold shutdownStep at h
  split at h
  case h_1 =>
    obtain ⟨rfl, rfl⟩ := Prod.mk.inj (Option.some.inj h)
    exact ⟨Shared.extends_of_regs rfl, hcons, trivial, fun p hp => .inl hp, fun e he => .inl he⟩
  case h_2 =>
    obtain ⟨rfl, rfl⟩ := Prod.mk.inj (Option.some.inj h)
    refine ⟨Shared.Extends.refl _, hcons, ?_, fun p hp => .inl hp, fun e he => .inl he⟩
    cases sh.collections.keys <;> trivial
  case h_3 s pc rest =>
    obtain ⟨⟨sh₁, pc₁⟩, hs, he⟩ := Option.map_eq_some'.1 h
    obtain ⟨rfl, rfl⟩ := Prod.mk.inj he
    obtain ⟨h₁, h₂, h₃, h₄, h₅⟩ := stopStep_sound hs hnamed hcons hpc
    exact ⟨h₁, h₂, Thread.sound_afterStop h₃, h₄, h₅⟩
  case h_4 => cases h

/-- One step of `start_collection` keeps every session and runner result and reports
nothing. It spawns a task only at `insertStreamer`, which only its insert leads to, with
the registration it appends; registrations keep agreeing with their tasks where that
spawn finds no task. -/
theorem startStep_sound {X : String} {le : Option String} {pc pc' : StartPc}
    (h : startStep sh S X le pc c = some (sh', pc')) :
    sh.Extends sh' ∧
    ((∀ x ∈ sh.regs, x.Consistent) → (∀ reg, pc = .insertStreamer reg → sh.taskOf reg = none) →
      ∀ x ∈ sh'.regs, x.Consistent) ∧
    sh'.persisted = sh.persisted ∧ (∀ e ∈ sh'.events, e ∈ sh.events ∨ e.1.isCollectionStopped = false) ∧
    (∀ r, sh'.taskOf r =
      if pc = .insertStreamer r then (sh.regs.get? r).bind (fun _ => some .connect) else sh.taskOf r) ∧
    ∀ r, pc'.spawns r ≤ if pc = .insert ∧ r = sh.regs.length then 1 else 0 := by
  unfold startStep at h
  split at h
  case h_1 =>
    split at h
    · obtain ⟨rfl, rfl⟩ := Prod.mk.inj (Option.some.inj h)
      exact ⟨Shared.Extends.refl _, fun h _ => h, rfl, fun e he => .inl he, fun r => by simp,
        fun r => by simp [StartPc.spawns]⟩
    · split at h <;> obtain ⟨rfl, rfl⟩ := Prod.mk.inj (Option.some.inj h) <;>
        exact ⟨Shared.Extends.refl _, fun h _ => h, rfl, fun e he => .inl he, fun r => by simp,
          fun r => by simp [StartPc.spawns]⟩
  case h_2 =>
    obtain ⟨rfl, rfl⟩ := Prod.mk.inj (Option.some.inj h)
    refine ⟨fun r => ⟨fun S' h => ?_, fun v h => ?_⟩, fun hcons _ y hy => ?_, rfl, fun e he => .inl he,
      fun r => by simp [Shared.taskOf_append], fun r => by simp [StartPc.spawns, eq_comm]⟩
    · obtain ⟨hlt, -⟩ := List.getElem?_eq_some_iff.1 h
      show ((sh.regs ++ _).map _)[r]? = _
      rw [List.map_append, List.getElem?_append_left hlt]
      exact h
    · obtain ⟨x, hx, -⟩ := Option.bind_eq_some.1 h
      obtain ⟨hlt, -⟩ := List.getElem?_eq_some_iff.1 (List.get?_eq_getElem? .. ▸ hx)
      simpa [Shared.resultOf, List.getElem?_append_left hlt] using h
    · simp only [List.mem_append, List.mem_singleton] at hy
      rcases hy with hy | rfl
      · exact hcons y hy
      · exact ⟨fun _ => rfl, fun _ h => by simp at h, fun _ h => by simp at h⟩
  case h_3 reg =>
    obtain ⟨rfl, rfl⟩ := Prod.mk.inj (Option.some.inj h)
    refine ⟨Shared.extends_setReg _ _ _ (fun _ => rfl) fun _ _ => id,
      fun hcons hsp => Shared.consistent_setReg hcons fun x hx => ?_, rfl, fun e he => .inl he,
      fun r => ?_, fun r => by simp [StartPc.spawns]⟩
    · have hc := hcons x (List.get?_mem hx)
      have ht := hsp reg rfl
      rw [Shared.taskOf, hx, Option.some_bind] at ht
      exact ⟨fun _ => hc.fresh (by simp [Registration.running, ht]), fun _ h => by
        simp [TaskPc.carried] at h, hc.done⟩
    · rw [Shared.taskOf_setReg_task]
      simp only [StartPc.insertStreamer.injEq]
      rfl
  case h_4 reg =>
    split at h
    · obtain ⟨rfl, rfl⟩ := Prod.mk.inj (Option.some.inj h)
      refine ⟨Shared.extends_of_regs rfl, fun h _ => h, rfl, fun e he => ?_, fun r => by simp [Shared.taskOf],
        fun r => by simp [StartPc.spawns]⟩
      simp only [Shared.emit, List.mem_append, List.mem_singleton] at he
      rcases he with he | rfl
      · exact .inl he
      · exact .inr rfl
    · obtain ⟨rfl, rfl⟩ := Prod.mk.inj (Option.some.inj h)
      exact ⟨Shared.Extends.refl _, fun h _ => h, rfl, fun e he => .inl he, fun r => by simp,
        fun r => by simp [StartPc.spawns]⟩
    · cases h
  case h_5 reg =>
    split at h
    · obtain ⟨rfl, rfl⟩ := Prod.mk.inj (Option.some.inj h)
      exact ⟨Shared.Extends.refl _, fun h _ => h, rfl, fun e he => .inl he, fun r => by simp,
        fun r => by simp [StartPc.spawns]⟩
    · cases h
  case h_6 err =>
    obtain ⟨rfl, rfl⟩ := Prod.mk.inj (Option.some.inj h)
    refine ⟨Shared.extends_of_regs rfl, fun h _ => h, rfl, fun e he => .inl he,
      fun r => by simp [Shared.taskOf], fun r => ?_⟩
    cases (sh.collections.get S) <;> simp [StartPc.spawns]
  case h_7 rc err =>
    simp only [Option.some.injEq, Prod.mk.injEq] at h
    obtain ⟨rfl, rfl⟩ := h
    obtain ⟨sbs, hsbs⟩ := reconcileStep_eq sh S rc
    rw [hsbs]
    refine ⟨Shared.extends_of_regs rfl, fun h _ => h, rfl, fun e he => .inl he,
      fun r => by simp [Shared.taskOf], fun r => ?_⟩
    cases (reconcileStep sh S rc).2 <;> simp [StartPc.spawns]
  case h_8 => cases h

/-- One step of registration `reg`'s task changes only that registration, keeps its
session and its runner's result once there is one, and keeps its fields in agreement with
the task's new place; what it persists or broadcasts, its runner returned. -/
theorem taskStep_sound {reg : Nat} {x : Registration} {pc pc' : TaskPc}
    (h : taskStep sh reg x.sessionId pc c = some (sh', pc')) (hx : sh.regs.get? reg = some x)
    (hpc : x.task = some pc) (hc : x.Consistent) :
    ∃ x', sh'.regs = sh.regs.set reg x' ∧ x'.sessionId = x.sessionId ∧
      (∀ v, x.result = some v → x'.result = some v) ∧ { x' with task := some pc' }.Consistent ∧
      (∀ p ∈ sh'.persisted, p ∈ sh.persisted ∨
        p.1 = x.sessionId ∧ p.2.2 = reg ∧ x'.result = some (.ok p.2.1)) ∧
      ∀ e ∈ sh'.events, e ∈ sh.events ∨
        e.2 = reg ∧ ∀ S s, e.1 = .collectionStopped S s → S = x.sessionId ∧ x'.result = some (.ok s) := by
  have hfresh : pc = .connect ∨ pc = .run → x.result = none := fun h' =>
    hc.fresh (by rcases h' with rfl | rfl <;> simp [Registration.running, hpc])
  have hcarried : ∀ s, pc.carried = some s → x.result = some (.ok s) := fun s h' =>
    hc.carried s (by simp [hpc, h'])
  have hself := set_get?_self hx
  unfold taskStep at h
  split at h
  case h_1 =>
    obtain ⟨rfl, rfl⟩ := Prod.mk.inj (Option.some.inj h)
    refine ⟨_, Shared.setReg_regs hx _, rfl, fun _ => id, ⟨fun _ => hfresh (.inl rfl), fun _ h => by
      simp [TaskPc.carried] at h, hc.done⟩, fun p hp => .inl hp, fun e he => .inl he⟩
  case h_2 e =>
    obtain ⟨rfl, rfl⟩ := Prod.mk.inj (Option.some.inj h)
    refine ⟨x, hself.symm, rfl, fun _ => id, ⟨fun h => by simp [Registration.running] at h, fun _ h => by
      simp [TaskPc.carried] at h, hc.done⟩, fun p hp => .inl hp, fun e he => ?_⟩
    simp only [Shared.emit, List.mem_append, List.mem_singleton] at he
    rcases he with he | rfl
    · exact .inl he
    · exact .inr ⟨rfl, fun S s h => by cases h⟩
  case h_3 =>
    obtain ⟨rfl, rfl⟩ := Prod.mk.inj (Option.some.inj h)
    refine ⟨_, Shared.setReg_regs hx _, rfl, fun _ => id, ⟨fun h => by simp [Registration.running] at h,
      fun _ h => by simp [TaskPc.carried] at h, hc.done⟩, fun p hp => .inl hp, fun e he => .inl he⟩
  case h_4 e =>
    obtain ⟨rfl, rfl⟩ := Prod.mk.inj (Option.some.inj h)
    refine ⟨_, Shared.setReg_regs hx _, rfl, fun _ => id, ⟨fun h => by simp [Registration.running] at h,
      fun _ h => by simp [TaskPc.carried] at h, hc.done⟩, fun p hp => .inl hp, fun e he => .inl he⟩
  case h_5 e =>
    obtain ⟨rfl, rfl⟩ := Prod.mk.inj (Option.some.inj h)
    refine ⟨x, hself.symm, rfl, fun _ => id, ⟨fun h => by simp [Registration.running] at h, fun _ h => by
      simp [TaskPc.carried] at h, hc.done⟩, fun p hp => .inl hp, fun e he => ?_⟩
    simp only [Shared.emit, List.mem_append, List.mem_singleton] at he
    rcases he with he | rfl
    · exact .inl he
    · exact .inr ⟨rfl, fun S s h => by cases h⟩
  case h_6 s =>
    obtain ⟨rfl, rfl⟩ := Prod.mk.inj (Option.some.inj h)
    have hn := hfresh (.inr rfl)
    refine ⟨_, Shared.setReg_regs hx _, rfl, fun v h => by simp [hn] at h,
      ⟨fun h => by simp [Registration.running] at h, fun s' h => by simpa [TaskPc.carried] using h,
        fun s' h => by simp [hc.done s' h] at hn⟩, fun p hp => .inl hp, fun e he => .inl he⟩
  case h_7 e =>
    obtain ⟨rfl, rfl⟩ := Prod.mk.inj (Option.some.inj h)
    have hn := hfresh (.inr rfl)
    refine ⟨_, Shared.setReg_regs hx _, rfl, fun v h => by simp [hn] at h,
      ⟨fun h => by simp [Registration.running] at h, fun _ h => by simp [TaskPc.carried] at h,
        fun s' h => by simp [hc.done s' h] at hn⟩, fun p hp => .inl hp, fun e he => ?_⟩
    simp only [Shared.emit, List.mem_append, List.mem_singleton] at he
    rcases he with he | rfl
    · exact .inl he
    · exact .inr ⟨rfl, fun S s h => by cases h⟩
  case h_8 res =>
    obtain ⟨rfl, rfl⟩ := Prod.mk.inj (Option.some.inj h)
    generalize sh.collections.get x.sessionId = o
    cases o <;> cases res <;>
      exact ⟨x, hself.symm, rfl, fun _ => id, ⟨fun h => by simp [Registration.running] at h,
        fun s h => hcarried s (by revert h; simp [TaskPc.carried]), hc.done⟩,
        fun p hp => .inl hp, fun e he => .inl he⟩
  case h_9 rc res =>
    simp only [Option.some.injEq, Prod.mk.injEq] at h
    obtain ⟨rfl, rfl⟩ := h
    obtain ⟨sbs, hsbs⟩ := reconcileStep_eq sh x.sessionId rc
    rw [hsbs]
    generalize (reconcileStep sh x.sessionId rc).2 = o
    cases o <;> cases res <;>
      exact ⟨x, hself.symm, rfl, fun _ => id, ⟨fun h => by simp [Registration.running] at h,
        fun s h => hcarried s (by revert h; simp [TaskPc.carried]), hc.done⟩,
        fun p hp => .inl hp, fun e he => .inl he⟩
  case h_10 s =>
    obtain ⟨rfl, rfl⟩ := Prod.mk.inj (Option.some.inj h)
    have hr := hcarried s rfl
    refine ⟨x, hself.symm, rfl, fun _ => id, ⟨fun h => by simp [Registration.running] at h,
      fun s' h => by simpa [TaskPc.carried, hr] using h, hc.done⟩, fun p hp => ?_, fun e he => .inl he⟩
    simp only [Shared.persist, List.mem_append, List.mem_singleton] at hp
    rcases hp with hp | rfl
    · exact .inl hp
    · exact .inr ⟨rfl, rfl, hr⟩
  case h_11 s =>
    obtain ⟨rfl, rfl⟩ := Prod.mk.inj (Option.some.inj h)
    have hr := hcarried s rfl
    refine ⟨x, hself.symm, rfl, fun _ => id, ⟨fun h => by simp [Registration.running] at h,
      fun s' h => by simpa [TaskPc.carried, hr] using h, hc.done⟩, fun p hp => .inl hp, fun e he => ?_⟩
    simp only [Shared.emit, List.mem_append, List.mem_singleton] at he
    rcases he with he | rfl
    · exact .inl he
    · refine .inr ⟨rfl, fun S' s' h => ?_⟩
      obtain ⟨rfl, rfl⟩ : x.sessionId = S' ∧ s = s' := by simpa using h
      exact ⟨rfl, hr⟩
  case h_12 res =>
    obtain ⟨rfl, rfl⟩ := Prod.mk.inj (Option.some.inj h)
    refine ⟨_, Shared.setReg_regs hx _, rfl, fun _ => id, ⟨fun h => by simp [Registration.running] at h,
      fun _ h => by simp [TaskPc.carried] at h, fun s h => hcarried s ?_⟩, fun p hp => .inl hp,
      fun e he => .inl he⟩
    simp only [Option.some.injEq] at h
    simp [TaskPc.carried, h]
  case h_13 => cases h

/-- One step of a task keeps every session and runner result, each registration's
agreement, and which registrations have a task; what it persists or broadcasts, a
registration of that session returned. -/
theorem regStep_sound {reg : Nat} (h : regStep sh reg c = some sh') (hcons : ∀ x ∈ sh.regs, x.Consistent) :
    sh.Extends sh' ∧ (∀ x ∈ sh'.regs, x.Consistent) ∧
    (∀ p ∈ sh'.persisted, p ∈ sh.persisted ∨ sh'.Reports p.2.2 p.1 p.2.1) ∧
    (∀ e ∈ sh'.events, e ∈ sh.events ∨ ∀ S s, e.1 = .collectionStopped S s → sh'.Reports e.2 S s) ∧
    ∀ r, (sh'.taskOf r).isSome = (sh.taskOf r).isSome := by
  simp only [regStep, Option.bind_eq_some, Option.map_eq_some'] at h
  obtain ⟨x, hx, pc, hpc, ⟨sh₁, pc₁⟩, hs, rfl⟩ := h
  obtain ⟨x', hr, hsid, hres, hc', hp, he⟩ := taskStep_sound hs hx hpc (hcons x (List.get?_mem hx))
  have hlt := (List.getElem?_eq_some_iff.1 (List.get?_eq_getElem? .. ▸ hx)).1
  have hregs : (sh₁.setReg reg fun r => { r with task := some pc₁ }).regs =
      sh.regs.set reg { x' with task := some pc₁ } := by
    rw [Shared.setReg_regs (by rw [hr, List.get?_eq_getElem?, List.getElem?_set_self hlt]), hr,
      List.set_set]
  have hget := Shared.get?_of_set hx hregs
  have hsess : ∀ r, (sh₁.setReg reg fun r => { r with task := some pc₁ }).sessionOf r = sh.sessionOf r :=
    fun r => by
      rw [Shared.sessionOf_eq, Shared.sessionOf_eq, hget]
      split_ifs with hr
      · subst hr
        rw [hx]
        simp [hsid]
      · rfl
  have hres' : ∀ r, (sh₁.setReg reg fun r => { r with task := some pc₁ }).resultOf r =
      if reg = r then x'.result else sh.resultOf r := fun r => by
    simp only [Shared.resultOf, hget]
    split_ifs <;> rfl
  have hrep : ∀ s, x'.result = some (.ok s) →
      (sh₁.setReg reg fun r => { r with task := some pc₁ }).Reports reg x.sessionId s := fun s hs =>
    ⟨(hsess reg).trans (by rw [Shared.sessionOf_eq, hx]; rfl), by rw [hres', if_pos rfl]; exact hs⟩
  refine ⟨fun r => ⟨fun S h => (hsess r).trans h, fun v h => ?_⟩, fun y hy => ?_, fun p hp' => ?_,
    fun e he' => ?_, fun r => ?_⟩
  · rw [hres']
    split_ifs with hreg
    · subst hreg
      exact hres v (by rwa [Shared.resultOf, hx, Option.some_bind] at h)
    · exact h
  · rw [hregs] at hy
    rcases List.mem_or_eq_of_mem_set hy with hy | rfl
    · exact hcons y hy
    · exact hc'
  · rcases hp p hp' with hp | ⟨h₁, h₂, h₃⟩
    · exact .inl hp
    · rw [h₁, h₂]
      exact .inr (hrep _ h₃)
  · rcases he e he' with he | ⟨h₂, hS⟩
    · exact .inl he
    · refine .inr fun S s hes => ?_
      obtain ⟨rfl, h₃⟩ := hS S s hes
      rw [h₂]
      exact hrep s h₃
  · simp only [Shared.taskOf, hget]
    split_ifs with hreg
    · subst hreg
      rw [hx]
      simp [hpc]
    · rfl

/-- One step of a call keeps every session and runner result, each registration's
agreement, and what the call knows, if a spawn it makes finds no task; it reports only
what a registration of the reported session returned. -/
theorem threadStep_sound {t t' : Thread} (h : threadStep sh t c = some (sh', t')) (hn : sh.Named)
    (hcons : ∀ x ∈ sh.regs, x.Consistent) (ht : t.Sound sh)
    (hsp : ∀ reg, t.spawns reg = 1 → sh.taskOf reg = none) :
    sh.Extends sh' ∧ (∀ x ∈ sh'.regs, x.Consistent) ∧ t'.Sound sh' ∧
    (∀ p ∈ sh'.persisted, p ∈ sh.persisted ∨ sh'.Reports p.2.2 p.1 p.2.1) ∧
    ∀ e ∈ sh'.events, e ∈ sh.events ∨ ∀ S s, e.1 = .collectionStopped S s → sh'.Reports e.2 S s := by
  cases t with
  | start S X le pc =>
    obtain ⟨⟨sh₁, pc₁⟩, hs, he⟩ := Option.map_eq_some'.1 h
    obtain ⟨rfl, rfl⟩ := Prod.mk.inj he
    obtain ⟨h₁, h₂, h₃, h₄, -, -⟩ := startStep_sound hs
    refine ⟨h₁, h₂ hcons fun reg hpc => hsp reg (by simp [Thread.spawns, hpc, StartPc.spawns]), trivial,
      fun p hp => .inl (h₃ ▸ hp), fun e he => ?_⟩
    rcases h₄ e he with he | he
    · exact .inl he
    · exact .inr fun S s hs => by simp [hs] at he
  | stop S pc =>
    obtain ⟨⟨sh₁, pc₁⟩, hs, he⟩ := Option.map_eq_some'.1 h
    obtain ⟨rfl, rfl⟩ := Prod.mk.inj he
    exact stopStep_sound hs hn hcons ht
  | shutdown pc =>
    obtain ⟨⟨sh₁, pc₁⟩, hs, he⟩ := Option.map_eq_some'.1 h
    obtain ⟨rfl, rfl⟩ := Prod.mk.inj he
    exact shutdownStep_sound hs hn hcons ht

/-- A call spawns a task only at `insertStreamer`, and a new one only for the registration
its insert appended. -/
theorem threadStep_spawns {t t' : Thread} (h : threadStep sh t c = some (sh', t')) (r : Nat) :
    t'.spawns r + (if (sh'.taskOf r).isSome then 1 else 0) ≤
      t.spawns r + (if (sh.taskOf r).isSome then 1 else 0) +
        if sh.regs.length ≤ r ∧ r < sh'.regs.length then 1 else 0 := by
  cases t with
  | start S X le pc =>
    obtain ⟨⟨sh₁, pc₁⟩, hs, he⟩ := Option.map_eq_some'.1 h
    obtain ⟨rfl, rfl⟩ := Prod.mk.inj he
    obtain ⟨-, -, -, -, h₅, h₆⟩ := startStep_sound hs
    have hlen := congrArg List.length (startStep_spec hs).1
    simp only [List.length_map, List.length_append] at hlen
    have := h₆ r
    simp only [Thread.spawns, h₅]
    by_cases hpc : pc = .insertStreamer r
    · subst hpc
      have h₀ : pc₁.spawns r = 0 := by simpa using this
      have h₁ : (StartPc.insertStreamer r).spawns r = 1 := by simp [StartPc.spawns]
      rw [h₀, h₁]
      split_ifs <;> omega
    · rw [if_neg hpc]
      by_cases hi : pc = .insert
      · simp only [hi, if_true, true_and, List.length_singleton] at this hlen
        split_ifs at this ⊢ <;> omega
      · simp only [hi, if_false, false_and, List.length_nil, Nat.add_zero] at this hlen
        omega
  | stop S pc =>
    obtain ⟨⟨sh₁, pc₁⟩, hs, he⟩ := Option.map_eq_some'.1 h
    obtain ⟨rfl, rfl⟩ := Prod.mk.inj he
    simp [Thread.spawns, (stopStep_spec hs).2.1 r]
  | shutdown pc =>
    obtain ⟨⟨sh₁, pc₁⟩, hs, he⟩ := Option.map_eq_some'.1 h
    obtain ⟨rfl, rfl⟩ := Prod.mk.inj he
    simp [Thread.spawns, (shutdownStep_spec hs).2.1 r]

end Steps

/-! ## Runs -/

namespace DanmuService

/-- Each registration's task is spawned at most once: never by two calls, and never by a
call once it is there. -/
def Spawned (svc : DanmuService) : Prop :=
  ∀ reg, (svc.threads.map (Thread.spawns reg)).sum + (if (svc.shared.taskOf reg).isSome then 1 else 0) ≤
    if reg < svc.shared.regs.length then 1 else 0

/-- What every reachable state satisfies: registrations agree with their tasks, calls
with what they hold, and everything persisted or broadcast as `CollectionStopped` was
returned by a registration of that session. -/
structure Faithful (svc : DanmuService) : Prop where
  regs : ∀ x ∈ svc.shared.regs, x.Consistent
  threads : ∀ t ∈ svc.threads, t.Sound svc.shared
  persisted : ∀ p ∈ svc.shared.persisted, svc.shared.Reports p.2.2 p.1 p.2.1
  events : ∀ e ∈ svc.shared.events, ∀ S s, e.1 = .collectionStopped S s → svc.shared.Reports e.2 S s

variable {svc svc' : DanmuService} {a : Action}

theorem spawned_new : Spawned new := fun r => by simp [new, Shared.taskOf]

theorem faithful_new : Faithful new := ⟨by simp [new], by simp [new], by simp [new], by simp [new]⟩

/-- A step keeps `Faithful` once it keeps every session and runner result, each
registration's agreement and what each call knows, and reports only what a registration
of the reported session returned. -/
theorem Faithful.of_extends (hf : Faithful svc) (he : svc.shared.Extends svc'.shared)
    (hregs : ∀ x ∈ svc'.shared.regs, x.Consistent)
    (hthreads : ∀ t ∈ svc'.threads, t ∈ svc.threads ∨ t.Sound svc'.shared)
    (hp : ∀ p ∈ svc'.shared.persisted, p ∈ svc.shared.persisted ∨ svc'.shared.Reports p.2.2 p.1 p.2.1)
    (hev : ∀ e ∈ svc'.shared.events, e ∈ svc.shared.events ∨
      ∀ S s, e.1 = .collectionStopped S s → svc'.shared.Reports e.2 S s) : Faithful svc' where
  regs := hregs
  threads t ht := (hthreads t ht).elim (fun ht => (hf.threads t ht).mono he) id
  persisted p hp' := (hp p hp').elim (fun hp => (hf.persisted p hp).mono he) id
  events e he' S s hs := (hev e he').elim (fun he'' => (hf.events e he'' S s hs).mono he) (· S s hs)

/-- Indices below `n`, and those from `n` below `m ≥ n`, are indices below `m`. -/
theorem ite_lt_add_ite_range {n m : Nat} (r : Nat) (h : n ≤ m) :
    (if r < n then 1 else 0) + (if n ≤ r ∧ r < m then 1 else 0) ≤ if r < m then 1 else 0 := by
  split_ifs <;> omega

theorem Spawned.step (hs : Spawned svc) (hf : Faithful svc) (h : svc.step a = some svc') :
    Spawned svc' := by
  cases a
  case step i c =>
    simp only [step, Option.bind_eq_some, Option.map_eq_some'] at h
    obtain ⟨t, ht, ⟨sh', t'⟩, hts, rfl⟩ := h
    obtain ⟨⟨l, hl⟩, -⟩ := threadStep_spec hts
    have hlen := congrArg List.length hl
    simp only [List.length_map, List.length_append] at hlen
    intro r
    have h₁ := threadStep_spawns hts r
    have h₂ := sum_map_set (Thread.spawns r) ht t'
    have h₃ := hs r
    have h₄ := ite_lt_add_ite_range r (show svc.shared.regs.length ≤ sh'.regs.length by omega)
    dsimp only
    omega
  case task reg c =>
    simp only [step, Option.map_eq_some'] at h
    obtain ⟨sh', hrs, rfl⟩ := h
    have hlen := congrArg List.length (regStep_spec hrs).1
    simp only [List.length_map] at hlen
    intro r
    simpa [hlen, (regStep_sound hrs hf.regs).2.2.2.2 r] using hs r
  all_goals
    obtain rfl := Option.some.inj h
    intro r
    simpa [Thread.spawns, StartPc.spawns] using hs r

theorem Faithful.step (hf : Faithful svc) (hs : Spawned svc) (hn : svc.shared.Named)
    (h : svc.step a = some svc') : Faithful svc' := by
  cases a
  case step i c =>
    simp only [step, Option.bind_eq_some, Option.map_eq_some'] at h
    obtain ⟨t, ht, ⟨sh', t'⟩, hts, rfl⟩ := h
    have hsp : ∀ reg, t.spawns reg = 1 → svc.shared.taskOf reg = none := fun reg h₁ => by
      have h₂ := List.le_sum_of_mem (List.mem_map_of_mem (Thread.spawns reg) (List.get?_mem ht))
      have h₃ := hs reg
      cases hto : svc.shared.taskOf reg
      · rfl
      · simp only [hto, Option.isSome_some, if_true] at h₃
        split_ifs at h₃ <;> omega
    obtain ⟨h₁, h₂, h₃, h₄, h₅⟩ := threadStep_sound hts hn hf.regs (hf.threads t (List.get?_mem ht)) hsp
    refine hf.of_extends h₁ h₂ (fun t₀ h₀ => ?_) h₄ h₅
    rcases List.mem_or_eq_of_mem_set h₀ with h₀ | rfl
    · exact .inl h₀
    · exact .inr h₃
  case task reg c =>
    simp only [step, Option.map_eq_some'] at h
    obtain ⟨sh', hrs, rfl⟩ := h
    obtain ⟨h₁, h₂, h₃, h₄, -⟩ := regStep_sound hrs hf.regs
    exact hf.of_extends h₁ h₂ (fun t ht => .inl ht) h₃ h₄
  all_goals
    obtain rfl := Option.some.inj h
    refine hf.of_extends (Shared.Extends.refl _) hf.regs (fun t ht => ?_) (fun p hp => .inl hp)
      fun e he => .inl he
    simp only [List.mem_append, List.mem_singleton] at ht
    rcases ht with ht | rfl
    · exact .inl ht
    · exact .inr trivial

/-- Every state a run reaches is `Faithful`. -/
theorem faithful_run (acts : List Action) {svc : DanmuService} (h : new.run acts = some svc) :
    Faithful svc :=
  (Reachable.induction (fun svc => svc.shared.Named ∧ Spawned svc ∧ Faithful svc)
    ⟨named_new, spawned_new, faithful_new⟩
    (fun ⟨hn, hs, hf⟩ h => ⟨named_step hn h, hs.step hf h, hf.step hs hn h⟩) ⟨acts, h⟩).2.2

end DanmuService

open DanmuService in
/-- Whatever the schedule, and whether or not session ids are reused: every record
`persist_statistics` writes for a registration, and every `CollectionStopped` broadcast
for it, carries that registration's session id and the statistics its runner returned as
`Ok`. -/
theorem reported_runner_result (acts : List Action) {svc : DanmuService} (h : new.run acts = some svc)
    (reg : Nat) :
    (∀ S s, (S, s) ∈ svc.shared.persistedBy reg → svc.shared.Reports reg S s) ∧
      ∀ S s, DanmuEvent.collectionStopped S s ∈ svc.shared.eventsOf reg → svc.shared.Reports reg S s := by
  have hf := faithful_run acts h
  refine ⟨fun S s hp => ?_, fun S s he => ?_⟩
  · simp only [Shared.persistedBy, List.mem_map, List.mem_filter, decide_eq_true_eq] at hp
    obtain ⟨⟨S', s', r⟩, ⟨hp, rfl⟩, hps⟩ := hp
    obtain ⟨rfl, rfl⟩ := Prod.mk.inj hps
    exact hf.persisted _ hp
  · simp only [Shared.eventsOf, List.mem_map, List.mem_filter, decide_eq_true_eq] at he
    obtain ⟨⟨e, r⟩, ⟨he, rfl⟩, hes⟩ := he
    exact hf.events _ he S s hes

theorem reported_runner_result_startThenStop :
    (∀ S s, (S, s) ∈ ((DanmuService.new.run startThenStop).getD DanmuService.new).shared.persistedBy 0 →
      ((DanmuService.new.run startThenStop).getD DanmuService.new).shared.Reports 0 S s) ∧
    ∀ S s, DanmuEvent.collectionStopped S s ∈
        ((DanmuService.new.run startThenStop).getD DanmuService.new).shared.eventsOf 0 →
      ((DanmuService.new.run startThenStop).getD DanmuService.new).shared.Reports 0 S s :=
  reported_runner_result startThenStop rfl 0

end RustSrec.Danmu
