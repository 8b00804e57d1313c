import KernelStudy.HomeHack.Load
import KernelStudy.Proc.Hiding

/-!
# Nodes over the generations

A honeypot node is more than the processes that were named when a module was loaded.
A task that is created starts as a copy of its parent, `hp_node` included, and so
belongs to the node of its parent.  Both modules mark all processes anew when they are
loaded, by the process ids of that moment, and neither takes its marks back when it is
unloaded; and only processes are marked, since the threads of a process other than its
leader are not on the list that `next_task` follows.

## Main definitions

* `World` — the system: the table, the hook, the tasks, and which of them are there.
* `Event`, `step` — tasks are created and exit, modules are loaded and unloaded.
* `origin events t` — the task of the beginning from which `t` descends.

## Main results

* `step_unmarked`, `step_marked` — what an event does to the nodes.
* `node_of_lineage` — **the node of a task is the one that the last marking has given to its
  ancestor of that moment.**
* `answers_of_lineage` — **whom `proc_hack` means to hide from whom.**
-/

namespace KernelStudy
namespace Lineage

open Marking Proc

/-! ### The system -/

/-- The system, as far as the two modules see it. -/
structure World (α : Type*) where
  /-- The system call table and the tasks. -/
  sys : System α
  /-- The pointers that `home_hack` has saved. -/
  original : Call → α
  /-- `home_hack` is loaded. -/
  homeLoaded : Bool
  /-- `honeypot_hooks`. -/
  hooks : HoneypotHooks
  /-- `original_in_proc_pid_readdir`. -/
  originalHook : NormalHook
  /-- `proc_hack` is loaded. -/
  procLoaded : Bool
  /-- The processes behind `init_task`, in the order of the list. -/
  procs : List TaskPtr
  /-- The threads that are not leaders. -/
  threads : List TaskPtr
  ring : IsRing (fun t => (sys.tasks t).next) initTask procs

/-- What happens. -/
inductive Event where
  /-- A process is created. -/
  | fork (parent child : TaskPtr) (pid : ℤ)
  /-- A thread is created. -/
  | clone (parent child : TaskPtr) (pid : ℤ)
  /-- A task exits. -/
  | exit (task : TaskPtr)
  /-- `home_hack` is loaded; some stores to the table do not stick. -/
  | loadHome (ps : Params) (sticks : Call → Bool)
  | unloadHome
  /-- `proc_hack` is loaded. -/
  | loadProc (ps : Params)
  | unloadProc

namespace World

variable {α : Type*} (w : World α)

/-- The tasks that are there. -/
def live : List TaskPtr := initTask :: w.procs ++ w.threads

/-- The last process of the list. -/
def last : TaskPtr := (initTask :: w.procs).getLast (List.cons_ne_nil _ _)

/-- The process before another one on the list. -/
def before (task : TaskPtr) : TaskPtr :=
  (initTask :: w.procs.takeWhile fun t => t ≠ task).getLast (List.cons_ne_nil _ _)

/-- The tasks when `child` has been copied from `parent` and added to the list. -/
def forked (parent child : TaskPtr) (pid : ℤ) : TaskHeap :=
  Function.update
    (Function.update w.sys.tasks w.last { w.sys.tasks w.last with next := child }) child
    { w.sys.tasks parent with pid := pid, tgid := pid, next := initTask }

/-- The tasks when `child` has been copied from `parent`. -/
def cloned (parent child : TaskPtr) (pid : ℤ) : TaskHeap :=
  Function.update w.sys.tasks child { w.sys.tasks parent with pid := pid }

/-- The tasks when one has been taken off the list. -/
def unlinked (task : TaskPtr) : TaskHeap :=
  Function.update w.sys.tasks (w.before task)
    { w.sys.tasks (w.before task) with next := (w.sys.tasks task).next }

variable {w}

theorem next_update (tasks : TaskHeap) (x : TaskPtr) (v : TaskStruct) :
    (fun t => (Function.update tasks x v t).next) =
      Function.update (fun t => (tasks t).next) x v.next :=
  Function.comp_update TaskStruct.next tasks x v

theorem forked_ring {child : TaskPtr} (hchild : child ∉ w.live) (parent : TaskPtr) (pid : ℤ) :
    IsRing (fun t => (w.forked parent child pid t).next) initTask (w.procs ++ [child]) := by
  have hnext : (fun t => (w.forked parent child pid t).next) = Function.update
      (Function.update (fun t => (w.sys.tasks t).next) w.last child) child initTask := by
    unfold forked
    rw [next_update, next_update]
  rw [hnext]
  refine w.ring.join (List.dropLast_concat_getLast (List.cons_ne_nil _ _)).symm ?_
  exact fun h => hchild (List.mem_append_left _ h)

theorem cloned_ring {child : TaskPtr} (hchild : child ∉ w.live) (parent : TaskPtr) (pid : ℤ) :
    IsRing (fun t => (w.cloned parent child pid t).next) initTask w.procs := by
  refine w.ring.congr ?_
  intro t ht
  have hne : t ≠ child := fun heq => hchild (heq ▸ List.mem_append_left _ ht)
  simp [cloned, hne]

theorem unlinked_ring {task : TaskPtr} (htask : task ∈ w.procs) :
    IsRing (fun t => (w.unlinked task t).next) initTask (w.procs.erase task) := by
  obtain ⟨pre, post, hpre, hprocs, herase⟩ := List.exists_erase_eq htask
  have hbefore : w.before task = (initTask :: pre).getLast (List.cons_ne_nil _ _) := by
    have htake : (w.procs.takeWhile fun t => t ≠ task) = pre := by
      rw [hprocs, List.takeWhile_append_of_pos]
      · simp
      · intro t ht
        simpa using fun heq : t = task => hpre (heq ▸ ht)
    unfold before
    simp only [htake]
  have hnext : (fun t => (w.unlinked task t).next) = Function.update
      (fun t => (w.sys.tasks t).next) (w.before task) (w.sys.tasks task).next := by
    unfold unlinked
    rw [next_update]
  have hring := w.ring
  rw [hprocs] at hring
  rw [hnext, herase]
  rw [hbefore]
  exact hring.leave (List.dropLast_concat_getLast (List.cons_ne_nil _ _)).symm

/-- A link that is changed does not change a node. -/
theorem hpNode_relink (tasks : TaskHeap) (p x t : TaskPtr) :
    (Function.update tasks p { tasks p with next := x } t).hpNode = (tasks t).hpNode := by
  by_cases ht : t = p
  · subst ht
    simp
  · simp [ht]

/-- A process that is created has the node of its parent. -/
theorem hpNode_forked (w : World α) (parent child : TaskPtr) (pid : ℤ) (t : TaskPtr) :
    (w.forked parent child pid t).hpNode =
      (w.sys.tasks (Function.update id child parent t)).hpNode := by
  unfold forked
  by_cases ht : t = child
  · subst ht
    simp
  · rw [Function.update_of_ne ht, hpNode_relink, Function.update_of_ne ht, id]

/-- A thread that is created has the node of its parent. -/
theorem hpNode_cloned (w : World α) (parent child : TaskPtr) (pid : ℤ) (t : TaskPtr) :
    (w.cloned parent child pid t).hpNode =
      (w.sys.tasks (Function.update id child parent t)).hpNode := by
  unfold cloned
  by_cases ht : t = child
  · subst ht
    simp
  · simp [ht]

variable (w) in
/-- The node with which a marking leaves a task: only processes are on the list. -/
def nodeBy (ps : Params) (t : TaskPtr) : ℤ :=
  if t ∈ initTask :: w.procs then markOf ps (w.sys.tasks t).pid else (w.sys.tasks t).hpNode

end World

/-! ### Events -/

section

variable {α : Type*} [DecidableEq α] (nr : Call ↪ ℕ) (wrapper : Call → α) (addr : ℕ)

/-- The list is left alone by a load of `home_hack`. -/
theorem homeInit_ring {sticks : Call → Bool} {fuel : ℕ} {ps : Params}
    {original original' : Call → α} {sys sys' : System α} {rest : List TaskPtr} {ret : ℤ}
    (hring : IsRing (fun t => (sys.tasks t).next) initTask rest) (hfuel : rest.length < fuel)
    (h : HomeHack.initModule nr wrapper sticks fuel ps original sys = some (ret, sys', original')) :
    IsRing (fun t => (sys'.tasks t).next) initTask rest := by
  rw [HomeHack.initModule_eq hring hfuel] at h
  split at h
  · cases h
    exact hring
  · cases h
    dsimp only
    rw [marked_next]
    exact hring

/-- The list is left alone by a load of `proc_hack`. -/
theorem procInit_ring {fuel : ℕ} {ps : Params} {s s' : ProcHack.State}
    {rest : List TaskPtr} {ret : ℤ} (hring : IsRing (fun t => (s.tasks t).next) initTask rest)
    (hfuel : rest.length < fuel) (h : ProcHack.initModule addr fuel ps s = some (ret, s')) :
    IsRing (fun t => (s'.tasks t).next) initTask rest := by
  rw [ProcHack.initModule, show ProcHack.markProcess fuel ps s.tasks = _ from
    markProcess_eq hring hfuel] at h
  cases h
  dsimp only
  rw [marked_next]
  exact hring

/-- One event; `none` if it cannot happen. -/
def step (w : World α) : Event → Option (World α)
  | .fork parent child pid =>
      -- an address may be used again once its task is gone
      if h : parent ∈ w.live ∧ child ∉ w.live then
        some { w with
          sys := { w.sys with tasks := w.forked parent child pid }
          procs := w.procs ++ [child]
          ring := World.forked_ring h.2 parent pid }
      else none
  | .clone parent child pid =>
      if h : parent ∈ w.live ∧ child ∉ w.live then
        some { w with
          sys := { w.sys with tasks := w.cloned parent child pid }
          threads := child :: w.threads
          ring := World.cloned_ring h.2 parent pid }
      else none
  | .exit task =>
      if h : task ∈ w.procs then
        some { w with
          sys := { w.sys with tasks := w.unlinked task }
          procs := w.procs.erase task
          ring := World.unlinked_ring h }
      else if task ∈ w.threads then some { w with threads := w.threads.erase task }
      else none
  | .loadHome ps sticks =>
      if w.homeLoaded then none
      else
        -- a load that fails leaves what it has done, and the module is not there
        match h : HomeHack.initModule nr wrapper sticks (w.procs.length + 1) ps w.original
            w.sys with
        | none => none
        | some (ret, sys, original) =>
            some { w with
              sys := sys
              original := original
              homeLoaded := ret = 0
              ring := homeInit_ring nr wrapper w.ring (Nat.lt_succ_self _) h }
  | .unloadHome =>
      if w.homeLoaded then
        some { w with
          sys := { w.sys with table := HomeHack.cleanupModule nr wrapper w.original w.sys.table }
          homeLoaded := false }
      else none
  | .loadProc ps =>
      if w.procLoaded then none
      else
        match h : ProcHack.initModule addr (w.procs.length + 1) ps
            ⟨w.sys.tasks, w.hooks, w.originalHook⟩ with
        | none => none
        | some (ret, s) =>
            some { w with
              sys := { w.sys with tasks := s.tasks }
              hooks := s.hooks
              originalHook := s.original
              procLoaded := ret = 0
              ring := procInit_ring addr w.ring (Nat.lt_succ_self _) h }
  | .unloadProc =>
      if w.procLoaded then
        some { w with
          hooks := (ProcHack.cleanupModule addr ⟨w.sys.tasks, w.hooks, w.originalHook⟩).hooks
          procLoaded := false }
      else none

/-! ### What an event does to the nodes -/

/-- The parameters by which all processes are marked. -/
def Event.marks : Event → Option Params
  | .loadHome ps _ => if (HomeHack.checkArgs ps).1 < 0 then none else some ps
  | .loadProc ps => some ps
  | _ => none

/-- Of the tasks after an event, where they were before: a child was its parent. -/
def Event.parent : Event → TaskPtr → TaskPtr
  | .fork parent child _ => Function.update id child parent
  | .clone parent child _ => Function.update id child parent
  | _ => id

/-- The task of the beginning from which a task descends. -/
def origin : List Event → TaskPtr → TaskPtr
  | [], t => t
  | e :: events, t => e.parent (origin events t)

variable {nr wrapper addr} {w w' : World α} {e : Event}

/-- A parent is there before its child. -/
theorem mem_live_of_birth {parent child t : TaskPtr} {l : List TaskPtr} (hparent : parent ∈ l)
    (ht : t = child ∨ t ∈ l) : Function.update id child parent t ∈ l := by
  by_cases heq : t = child
  · rw [heq, Function.update_self]
    exact hparent
  · rw [Function.update_of_ne heq]
    exact ht.resolve_left heq

/-- **An event that does not mark**: every task has the node that it, or its parent,
had before, and `proc_hack` is not loaded. -/
theorem step_unmarked (h : step nr wrapper addr w e = some w') (hmarks : e.marks = none) :
    (∀ t ∈ w'.live, e.parent t ∈ w.live) ∧
      (∀ t, (w'.sys.tasks t).hpNode = (w.sys.tasks (e.parent t)).hpNode) ∧
      (w.procLoaded = false → w'.procLoaded = false) := by
  cases e with
  | fork parent child pid =>
    simp only [step] at h
    split at h
    · next hwf =>
      cases h
      refine ⟨fun t ht => mem_live_of_birth hwf.1 ?_, World.hpNode_forked w parent child pid, id⟩
      simp only [World.live, List.mem_append, List.mem_cons] at ht ⊢
      tauto
    · cases h
  | clone parent child pid =>
    simp only [step] at h
    split at h
    · next hwf =>
      cases h
      refine ⟨fun t ht => mem_live_of_birth hwf.1 ?_, World.hpNode_cloned w parent child pid, id⟩
      simp only [World.live, List.mem_append, List.mem_cons] at ht ⊢
      tauto
    · cases h
  | exit task =>
    simp only [step] at h
    split at h
    · cases h
      refine ⟨fun t ht => ?_, fun t => World.hpNode_relink _ _ _ t, id⟩
      simp only [World.live, List.mem_append, List.mem_cons] at ht ⊢
      exact ht.imp_left (Or.imp_right List.mem_of_mem_erase)
    · split at h
      · cases h
        refine ⟨fun t ht => ?_, fun t => rfl, id⟩
        simp only [World.live, List.mem_append, List.mem_cons] at ht ⊢
        exact ht.imp_right List.mem_of_mem_erase
      · cases h
  | loadHome ps sticks =>
    -- the arguments are rejected
    have hargs : (HomeHack.checkArgs ps).1 < 0 := by
      by_contra hargs
      rw [Event.marks, if_neg hargs] at hmarks
      cases hmarks
    simp only [step] at h
    split at h
    · cases h
    · split at h
      · cases h
      · next ret sys original hinit =>
        rw [HomeHack.initModule_eq w.ring (Nat.lt_succ_self _), if_pos hargs] at hinit
        cases hinit
        cases h
        exact ⟨fun t ht => ht, fun t => rfl, id⟩
  | unloadHome =>
    simp only [step] at h
    split at h
    · cases h
      exact ⟨fun t ht => ht, fun t => rfl, id⟩
    · cases h
  | loadProc ps => cases hmarks
  | unloadProc =>
    simp only [step] at h
    split at h
    · cases h
      exact ⟨fun t ht => ht, fun t => rfl, fun _ => rfl⟩
    · cases h

/-- **An event that marks**: every process has the node of its process id, and the
other threads keep theirs. -/
theorem step_marked {ps : Params} (h : step nr wrapper addr w e = some w')
    (hmarks : e.marks = some ps) : w'.procs = w.procs ∧ w'.threads = w.threads ∧
      w'.sys.tasks = marked ps (initTask :: w.procs) w.sys.tasks := by
  cases e with
  | loadHome ps' sticks =>
    rw [Event.marks] at hmarks
    split at hmarks
    · cases hmarks
    · next hargs =>
      cases hmarks
      simp only [step] at h
      split at h
      · cases h
      · split at h
        · cases h
        · next ret sys original hinit =>
          rw [HomeHack.initModule_eq w.ring (Nat.lt_succ_self _), if_neg hargs] at hinit
          cases hinit
          cases h
          exact ⟨rfl, rfl, rfl⟩
  | loadProc ps' =>
    cases hmarks
    simp only [step] at h
    split at h
    · cases h
    · split at h
      · cases h
      · next ret s hinit =>
        rw [ProcHack.initModule, show ProcHack.markProcess _ ps w.sys.tasks = _ from
          markProcess_eq w.ring (Nat.lt_succ_self _)] at hinit
        cases hinit
        cases h
        exact ⟨rfl, rfl, rfl⟩
  | fork => cases hmarks
  | clone => cases hmarks
  | exit => cases hmarks
  | unloadHome => cases hmarks
  | unloadProc => cases hmarks

/-! ### Histories -/

/-- A history without a marking. -/
theorem run_unmarked : ∀ (events : List Event) (w : World α),
    run (step nr wrapper addr) w events = some w' → (∀ e ∈ events, e.marks = none) →
    (∀ t ∈ w'.live, origin events t ∈ w.live) ∧
      (∀ t, (w'.sys.tasks t).hpNode = (w.sys.tasks (origin events t)).hpNode) ∧
      (w.procLoaded = false → w'.procLoaded = false) := by
  intro events
  induction events with
  | nil =>
    intro w h _
    cases h
    exact ⟨fun t ht => ht, fun t => rfl, id⟩
  | cons e events ih =>
    intro w h hmarks
    obtain ⟨hmarks₁, hmarks⟩ := List.forall_mem_cons.mp hmarks
    obtain ⟨w₁, hstep, hrun⟩ := run_cons_eq_some.mp h
    obtain ⟨hlive₁, hnode₁, hloaded₁⟩ := step_unmarked hstep hmarks₁
    obtain ⟨hlive, hnode, hloaded⟩ := ih w₁ hrun hmarks
    refine ⟨fun t ht => hlive₁ _ (hlive t ht), fun t => ?_, fun h => hloaded (hloaded₁ h)⟩
    rw [hnode, hnode₁, origin]

/-- After a marking and a history without another one. -/
theorem node_of_ancestor {ps : Params} {after : List Event} {w₁ : World α}
    (hstep : step nr wrapper addr w e = some w₁) (hmarks : e.marks = some ps)
    (hrun : run (step nr wrapper addr) w₁ after = some w') (hafter : ∀ e ∈ after, e.marks = none)
    {t : TaskPtr} (ht : t ∈ w'.live) :
    origin after t ∈ w.live ∧ (w'.sys.tasks t).hpNode = w.nodeBy ps (origin after t) := by
  obtain ⟨hprocs, hthreads, htasks⟩ := step_marked hstep hmarks
  obtain ⟨hlive, hnode, -⟩ := run_unmarked after w₁ hrun hafter
  have hsame : w₁.live = w.live := by rw [World.live, World.live, hprocs, hthreads]
  refine ⟨hsame ▸ hlive t ht, ?_⟩
  rw [hnode, htasks, marked, World.nodeBy]
  split <;> rfl

/-- **The node of a task is the one that the last marking has given to its ancestor of
that moment**, whatever tasks have been created and have exited since, and whatever
modules have been unloaded: that of its process id then, or, if it was a thread and not
the leader of a process, the one that it had already. -/
theorem node_of_lineage (events : List Event) {after : List Event} {ps : Params} {w₀ : World α}
    (hrun : run (step nr wrapper addr) w₀ (events ++ e :: after) = some w')
    (hmarks : e.marks = some ps) (hafter : ∀ e ∈ after, e.marks = none) :
    ∃ w, run (step nr wrapper addr) w₀ events = some w ∧ ∀ t ∈ w'.live,
      origin after t ∈ w.live ∧ (w'.sys.tasks t).hpNode = w.nodeBy ps (origin after t) := by
  obtain ⟨w, hbefore, hrest⟩ := run_append.mp hrun
  obtain ⟨w₁, hstep, hrest⟩ := run_cons_eq_some.mp hrest
  exact ⟨w, hbefore, fun t ht => node_of_ancestor hstep hmarks hrest hafter ht⟩

/-- Two processes after boot. -/
def booted : World ℕ where
  sys := HomeHack.freshSystem
  original := fun _ => 0
  homeLoaded := false
  hooks := honeypotHooks
  originalHook := dummyInProcPidReaddir
  procLoaded := false
  procs := [1]
  threads := []
  ring := isRing_twoRing 0 4232

/-- The process is put into node 1 and has a child before and after that; then it
exits. -/
def twoChildren : List Event :=
  [.fork 1 2 5000] ++ .loadProc (onePair 4232 1) :: [.fork 1 3 5001, .exit 1]

theorem run_twoChildren : ∃ w', run (step i386Nr (fun _ => 1) 7) booted twoChildren = some w' ∧
    w'.live = [0, 2, 3] ∧ w'.procLoaded = true ∧
    (w'.sys.tasks 2).hpNode = -1 ∧ (w'.sys.tasks 3).hpNode = 1 := by
  have hrun : (run (step i386Nr (fun _ => 1) 7) booted twoChildren).map
      (fun w => (w.live, w.procLoaded, (w.sys.tasks 2).hpNode, (w.sys.tasks 3).hpNode)) =
        some ([0, 2, 3], true, -1, 1) := by decide
  obtain ⟨w', h, heq⟩ := Option.map_eq_some_iff.mp hrun
  simp only [Prod.mk.injEq] at heq
  exact ⟨w', h, heq⟩

/-- Of the two children, only the younger one is in the node of the parent. -/
theorem younger_child_in_node :
    ∃ w w', run (step i386Nr (fun _ => 1) 7) booted [.fork 1 2 5000] = some w ∧
      run (step i386Nr (fun _ => 1) 7) booted twoChildren = some w' ∧ w'.live = [0, 2, 3] ∧
      w.nodeBy (onePair 4232 1) 2 = -1 ∧ w.nodeBy (onePair 4232 1) 1 = 1 := by
  obtain ⟨w', hrun, hlive, -, h2, h3⟩ := run_twoChildren
  obtain ⟨w, hbefore, hnode⟩ := node_of_lineage [.fork 1 2 5000] hrun rfl (by decide)
  have hnode2 := (hnode 2 (by rw [hlive]; decide)).2
  have hnode3 := (hnode 3 (by rw [hlive]; decide)).2
  exact ⟨w, w', hbefore, hrun, hlive, hnode2.symm.trans h2, hnode3.symm.trans h3⟩

/-! ### The hook -/

/-- The hook is that of `proc_hack` while the module is there, and else the kernel's. -/
structure HookThere (addr : ℕ) (w : World α) : Prop where
  loaded : w.procLoaded = true → w.hooks.inProcPidReaddir = ProcHack.hookAt addr ∧
    w.originalHook = dummyInProcPidReaddir
  unloaded : w.procLoaded = false → w.hooks = honeypotHooks

omit [DecidableEq α] in
/-- Events that leave the hook alone. -/
theorem HookThere.of_eq (h : HookThere addr w) (hloaded : w'.procLoaded = w.procLoaded)
    (hhooks : w'.hooks = w.hooks) (horiginal : w'.originalHook = w.originalHook) :
    HookThere addr w' := by
  obtain ⟨h₁, h₂⟩ := h
  rw [← hloaded, ← hhooks] at h₁ h₂
  rw [← horiginal] at h₁
  exact ⟨h₁, h₂⟩

theorem step_hookThere (w : World α) (e : Event) (w' : World α) (hI : HookThere addr w)
    (h : step nr wrapper addr w e = some w') : HookThere addr w' := by
  cases e with
  | fork | clone | unloadHome =>
    simp only [step] at h
    split at h
    · cases h
      exact hI.of_eq rfl rfl rfl
    · cases h
  | exit task =>
    simp only [step] at h
    split at h
    · cases h
      exact hI.of_eq rfl rfl rfl
    · split at h
      · cases h
        exact hI.of_eq rfl rfl rfl
      · cases h
  | loadHome ps sticks =>
    simp only [step] at h
    split at h
    · cases h
    · split at h
      · cases h
      · cases h
        exact hI.of_eq rfl rfl rfl
  | loadProc ps =>
    simp only [step] at h
    split at h
    · cases h
    · next hnot =>
      have hhooks := hI.unloaded (Bool.not_eq_true _ ▸ hnot)
      split at h
      · cases h
      · next ret s hinit =>
        rw [ProcHack.initModule, show ProcHack.markProcess _ ps w.sys.tasks = _ from
          markProcess_eq w.ring (Nat.lt_succ_self _)] at hinit
        cases hinit
        cases h
        refine ⟨fun _ => ⟨rfl, ?_⟩, fun hno => Bool.noConfusion hno⟩
        dsimp only
        rw [hhooks]
        rfl
  | unloadProc =>
    simp only [step] at h
    split at h
    · next hloaded =>
      obtain ⟨hhook, horiginal⟩ := hI.loaded hloaded
      cases h
      refine ⟨fun hno => Bool.noConfusion hno, fun _ => ?_⟩
      dsimp only
      rw [ProcHack.cleanupModule, hhook, horiginal]
      exact congrArg ProcHack.State.hooks (if_pos rfl)
    · cases h

/-- **Whom `proc_hack` means to hide from whom**: in every history from boot on, while
the module is not there, the hook is the kernel's; and while it is there, there has been
a marking, and the hook answers 0 about a task exactly to those without a node and to
those whose ancestor at the last marking was given the same node as that of the task. -/
theorem answers_of_lineage (events : List Event) {w₀ : World α}
    (hboot : w₀.procLoaded = false) (hhooks : w₀.hooks = honeypotHooks)
    (hrun : run (step nr wrapper addr) w₀ events = some w') :
    (w'.procLoaded = false → w'.hooks = honeypotHooks) ∧
      (w'.procLoaded = true → ∃ before e after ps, events = before ++ e :: after ∧
        e.marks = some ps ∧ ∀ e ∈ after, e.marks = none) ∧
      ∀ before e after ps, events = before ++ e :: after → e.marks = some ps →
        (∀ e ∈ after, e.marks = none) → ∃ w, run (step nr wrapper addr) w₀ before = some w ∧
          (w'.procLoaded = true → ∀ current ∈ w'.live, ∀ task ∈ w'.live, ∀ tgid,
            (w'.hooks.inProcPidReaddir.body ⟨current, w'.sys.tasks, some ⟨tgid, some task⟩⟩ =
                some 0 ↔
              w.nodeBy ps (origin after current) < 0 ∨
                w.nodeBy ps (origin after task) = w.nodeBy ps (origin after current))) := by
  have hstart : HookThere addr w₀ := ⟨fun h => by simp [hboot] at h, fun _ => hhooks⟩
  have hthere := run_invariant step_hookThere _ w₀ w' hstart hrun
  refine ⟨hthere.unloaded, fun hloaded => ?_, ?_⟩
  · -- only a marking loads the module
    refine (exists_last Event.marks events).resolve_left fun hnone => ?_
    have hunloaded := (run_unmarked events w₀ hrun hnone).2.2 hboot
    rw [hloaded] at hunloaded
    cases hunloaded
  · rintro before e after ps rfl hmarks hafter
    obtain ⟨w, hbefore, hrest⟩ := run_append.mp hrun
    obtain ⟨w₁, hstep, hrest⟩ := run_cons_eq_some.mp hrest
    refine ⟨w, hbefore, fun hloaded current hcurrent task htask tgid => ?_⟩
    have hnode := fun t ht => (node_of_ancestor (t := t) hstep hmarks hrest hafter ht).2
    rw [(hthere.loaded hloaded).1, ← hnode current hcurrent, ← hnode task htask]
    exact ProcHack.funcProcPidReaddir_eq_zero_iff

/-- The older child is hidden from the younger one. -/
theorem older_child_hidden :
    ∃ w', run (step i386Nr (fun _ => 1) 7) booted twoChildren = some w' ∧
      w'.hooks.inProcPidReaddir.body ⟨3, w'.sys.tasks, some ⟨5000, some 2⟩⟩ ≠ some 0 := by
  obtain ⟨w', hrun, hlive, hloaded, -, -⟩ := run_twoChildren
  obtain ⟨w, hbefore, hanswer⟩ := (answers_of_lineage twoChildren rfl rfl hrun).2.2
    [.fork 1 2 5000] _ _ (onePair 4232 1) rfl rfl (by decide)
  have hnodes : (run (step i386Nr (fun _ => 1) 7) booted [.fork 1 2 5000]).map
      (fun w => (w.nodeBy (onePair 4232 1) 1, w.nodeBy (onePair 4232 1) 2)) = some (1, -1) := by
    decide
  rw [hbefore, Option.map_some, Option.some.injEq, Prod.mk.injEq] at hnodes
  refine ⟨w', hrun, ?_⟩
  rw [Ne, hanswer hloaded 3 (by rw [hlive]; decide) 2 (by rw [hlive]; decide)]
  change ¬ (w.nodeBy (onePair 4232 1) 1 < 0 ∨
    w.nodeBy (onePair 4232 1) 2 = w.nodeBy (onePair 4232 1) 1)
  omega

end

end Lineage
end KernelStudy
