import KernelStudy.Marking
import KernelStudy.Proc.Scan

/-!
# Hiding processes of other nodes

`proc_hack.c` marks the tasks with their nodes and puts `func_proc_pid_readdir` in
the place of the hook that `proc_pid_readdir` calls.  The function looks at the
iterator it takes as its argument and answers 1 for a process that the caller
should not see.  The hook type of `proc_fs.h` has no argument and no result, and
`proc_pid_readdir` lists the process whatever the answer is.

## Main definitions

* `ProcHack.funcProcPidReaddir` — the function.
* `ProcHack.initModule`, `ProcHack.cleanupModule` — the module.
* `Leader ns tasks nr task` — a thread-group leader of a namespace.
* `Hides` — what the module is for: the processes listed are those for which the
  function answers 0.

## Main results

* `funcProcPidReaddir_eq_zero_iff` — the answers of the function.
* `mem_accepted_iff` — a completed scan lists every leader.
* `hides_iff` — **the module hides what it should exactly when there is nothing
  to hide.**
-/

namespace KernelStudy

open Proc

/-! ### The module -/

namespace ProcHack

/-- `func_proc_pid_readdir`.  It faults if it follows a pointer that is not
there. -/
def funcProcPidReaddir (frame : HookFrame) : Option ℤ :=
  let node := (frame.tasks frame.current).hpNode
  if 0 ≤ node then
    match frame.arg with
    | none => none
    | some iter =>
        match iter.task with
        | none => none
        | some task => if (frame.tasks task).hpNode ≠ node then some 1 else some 0
  else some 0

/-- The function in a module loaded at an address. -/
def hookAt (addr : ℕ) : NormalHook := ⟨addr, funcProcPidReaddir⟩

/-- The state the module changes. -/
structure State where
  /-- The tasks. -/
  tasks : TaskHeap
  /-- `honeypot_hooks`. -/
  hooks : HoneypotHooks
  /-- `original_in_proc_pid_readdir`. -/
  original : NormalHook

/-- `init_module`. -/
def initModule (addr fuel : ℕ) (ps : Params) (s : State) : Option (ℤ × State) :=
  match markProcess fuel ps s.tasks with
  | none => none
  | some (tasks, _) =>
      some (0,
        { tasks := tasks
          hooks := { s.hooks with inProcPidReaddir := hookAt addr }
          original := s.hooks.inProcPidReaddir })

/-- `cleanup_module`. -/
def cleanupModule (addr : ℕ) (s : State) : State :=
  if s.hooks.inProcPidReaddir.addr = addr then
    { s with hooks := { s.hooks with inProcPidReaddir := s.original } }
  else s

/-- A load installs the function. -/
theorem initModule_hooks {addr fuel : ℕ} {ps : Params} {s s' : State} {ret : ℤ}
    (h : initModule addr fuel ps s = some (ret, s')) :
    s'.hooks.inProcPidReaddir = hookAt addr := by
  unfold initModule at h
  split at h
  · cases h
  · cases h
    rfl

/-- Unloading takes the function out again. -/
theorem cleanupModule_initModule {addr fuel : ℕ} {ps : Params} {s s' : State} {ret : ℤ}
    (h : initModule addr fuel ps s = some (ret, s')) : (cleanupModule addr s').hooks = s.hooks := by
  unfold initModule at h
  split at h
  · cases h
  · cases h
    simp [cleanupModule, hookAt]

/-- **The answers of the function**, given the iterator: 0 to a caller without a
node, and to one of the same node. -/
theorem funcProcPidReaddir_eq_zero_iff {current task : TaskPtr} {tasks : TaskHeap} {nr : ℕ} :
    funcProcPidReaddir ⟨current, tasks, some ⟨nr, some task⟩⟩ = some 0 ↔
      (tasks current).hpNode < 0 ∨ (tasks task).hpNode = (tasks current).hpNode := by
  unfold funcProcPidReaddir
  dsimp only
  split
  · next hnode =>
    split
    · next hne =>
      constructor
      · intro h
        cases h
      · rintro (hneg | heq)
        · omega
        · exact absurd heq hne
    · next heq => exact iff_of_true rfl (Or.inr (not_not.mp heq))
  · next hnode => exact iff_of_true rfl (Or.inl (not_le.mp hnode))

end ProcHack

/-! ### A scan of processes that stay -/

namespace Proc

variable {L : PidLimit}

/-- `nr` is the pid of the thread-group leader `task`. -/
def Leader (ns : PidNamespace L) (tasks : TaskHeap) (nr : ℕ) (task : TaskPtr) : Prop :=
  nr ∈ ns.pids ∧ ns.pidTask nr = some task ∧ hasGroupLeaderPid (tasks task) = true

/-- The processes, their marks and the caller stay the same. -/
structure Frozen (env : Env L) (ns : PidNamespace L) (tasks : TaskHeap) (current : TaskPtr) :
    Prop where
  ns_eq : ∀ t, env.ns t = ns
  tasks_eq : ∀ t, env.tasks t = tasks
  current_eq : ∀ t, env.current t = current

variable {env : Env L} {ns : PidNamespace L} {tasks : TaskHeap} {current : TaskPtr} {st : St}

theorem Frozen.leaderAt_iff (h : Frozen env ns tasks current) (t nr : ℕ) :
    LeaderAt env t nr ↔ ∃ task, Leader ns tasks nr task := by
  unfold LeaderAt leaderTask Leader
  rw [h.ns_eq, h.tasks_eq, Option.isSome_iff_exists]
  simp only [Option.filter_eq_some_iff]
  exact ⟨fun ⟨hmem, task, htask⟩ => ⟨task, hmem, htask⟩,
    fun ⟨task, hmem, htask⟩ => ⟨hmem, task, htask⟩⟩

/-- **A completed scan lists every leader.** -/
theorem mem_accepted_iff (hfrozen : Frozen env ns tasks current) (hI : Resumable env st)
    (hend : st.fPos = L.value + tgidOffset) (nr : ℕ) :
    .process nr ∈ accepted st.trace ↔ ∃ task, Leader ns tasks nr task := by
  obtain ⟨listed, hp⟩ := hI.progress_of_end hend
  have hmem : .process nr ∈ accepted st.trace ↔ nr ∈ listed := by
    rw [hp.accepted_eq]
    simp
  rw [hmem]
  constructor
  · intro hnr
    obtain ⟨t, -, hleader⟩ := hp.leaders nr hnr
    exact (hfrozen.leaderAt_iff t nr).mp hleader
  · intro hleader
    have hsteady : Steady env st.clock nr := fun t _ => (hfrozen.leaderAt_iff t nr).mpr hleader
    exact hp.swept.covers nr hsteady (hsteady 0 hp.started).lt

/-! ### What is hidden -/

/-- The processes among the entries are those for which the function answers 0. -/
def Hides (ns : PidNamespace L) (tasks : TaskHeap) (current : TaskPtr) (entries : List Dirent) :
    Prop :=
  ∀ nr, .process nr ∈ entries ↔
    ∃ task, Leader ns tasks nr task ∧
      ProcHack.funcProcPidReaddir ⟨current, tasks, some ⟨nr, some task⟩⟩ = some 0

/-- **The module hides what it should exactly when there is nothing to hide**: when
the caller has no node, or every leader is of the caller's node.  Its function
is the hook that the scan calls; the scan does not ask it. -/
theorem hides_iff {addr markFuel fuel calls : ℕ} {ps : Params} {s s' : ProcHack.State} {ret : ℤ}
    (hload : ProcHack.initModule addr markFuel ps s = some (ret, s'))
    (hfrozen : Frozen env ns tasks current)
    (hr : run (call env fuel) start (List.replicate calls s'.hooks.inProcPidReaddir) = some st)
    (hend : st.fPos = L.value + tgidOffset) :
    s'.hooks.inProcPidReaddir = ProcHack.hookAt addr ∧
      (Hides ns tasks current (accepted st.trace) ↔
        ((tasks current).hpNode < 0 ∨
          ∀ nr task, Leader ns tasks nr task → (tasks task).hpNode = (tasks current).hpNode)) := by
  have hI : Resumable env st := run_invariant resumable_call _ start st resumable_start hr
  refine ⟨ProcHack.initModule_hooks hload, ?_⟩
  have hall := mem_accepted_iff hfrozen hI hend
  simp only [Hides, hall, ProcHack.funcProcPidReaddir_eq_zero_iff]
  constructor
  · -- every leader is listed, so each has to be one that may be seen
    intro h
    by_contra hnot
    rw [not_or] at hnot
    refine hnot.2 fun nr task hleader => ?_
    obtain ⟨task', hleader', hvisible⟩ := (h nr).mp ⟨task, hleader⟩
    obtain rfl : task' = task := Option.some.inj (hleader'.2.1.symm.trans hleader.2.1)
    exact hvisible.resolve_left hnot.1
  · intro h nr
    constructor
    · rintro ⟨task, hleader⟩
      exact ⟨task, hleader, h.imp_right fun hsame => hsame nr task hleader⟩
    · rintro ⟨task, hleader, -⟩
      exact ⟨task, hleader⟩

/-- Two processes of the given nodes, the first of which reads `/proc`. -/
def twoNodes (node₁ node₂ : ℤ) : TaskHeap := fun task =>
  { pid := task
    tgid := task
    hpNode := if task = 1 then node₁ else node₂
    hpBuf := fun _ => 0
    next := 0 }

/-- The namespace of the two processes. -/
def twoPids : PidNamespace ⟨0x8000, le_pidMaxLimit⟩ := ⟨{1, 2}, some, by decide⟩

/-- The surroundings of a scan by the first process.  The function even finds the
iterator of the second one. -/
def twoNodesEnv (node₁ node₂ : ℤ) : Env ⟨0x8000, le_pidMaxLimit⟩ where
  toCacheEnv := sameNumbers
  config := Dir.allOptions
  ns := fun _ => twoPids
  tasks := fun _ => twoNodes node₁ node₂
  reaper := fun _ => some 1
  filldir := fun _ => 0
  current := fun _ => 1
  arg := fun _ => some ⟨2, some 2⟩

theorem frozen_twoNodesEnv (node₁ node₂ : ℤ) :
    Frozen (twoNodesEnv node₁ node₂) twoPids (twoNodes node₁ node₂) 1 :=
  ⟨fun _ => rfl, fun _ => rfl, fun _ => rfl⟩

/-- The kernel before the module is loaded. -/
def unhooked : ProcHack.State := ⟨Marking.twoRing 0 4232, honeypotHooks, dummyInProcPidReaddir⟩

theorem exists_load : ∃ s',
    ProcHack.initModule 0x1000 2 (Marking.onePair 4232 1) unhooked = some (0, s') := by
  have hload : (ProcHack.initModule 0x1000 2 (Marking.onePair 4232 1) unhooked).map Prod.fst =
      some 0 := by decide
  obtain ⟨⟨ret, s'⟩, h, rfl⟩ := Option.map_eq_some_iff.mp hload
  exact ⟨s', h⟩

/-- Between processes of one node there is nothing to hide. -/
theorem same_node_scan_hides : ∃ s' st,
    ProcHack.initModule 0x1000 2 (Marking.onePair 4232 1) unhooked = some (0, s') ∧
      run (call (twoNodesEnv 1 1) 0x8001) start [s'.hooks.inProcPidReaddir] = some st ∧
      Hides twoPids (twoNodes 1 1) 1 (accepted st.trace) := by
  obtain ⟨s', hload⟩ := exists_load
  have hrun : (run (call (twoNodesEnv 1 1) 0x8001) start [ProcHack.hookAt 0x1000]).map
      (fun st => st.fPos) = some ((0x8000 : ℤ) + tgidOffset) := by decide +kernel
  rw [← ProcHack.initModule_hooks hload] at hrun
  obtain ⟨st, hr, hend⟩ := Option.map_eq_some_iff.mp hrun
  refine ⟨s', st, hload, hr, ?_⟩
  have hr' : run (call (twoNodesEnv 1 1) 0x8001) start
      (List.replicate 1 s'.hooks.inProcPidReaddir) = some st := hr
  refine (hides_iff hload (frozen_twoNodesEnv 1 1) hr' hend).2.mpr (Or.inr ?_)
  intro nr task _
  simp [twoNodes]

/-- A process of node 2 is listed to a caller of node 1. -/
theorem other_node_listed :
    ¬ ∀ (L : PidLimit) (env : Env L) (ns : PidNamespace L) (tasks : TaskHeap) (current : TaskPtr)
        (addr markFuel fuel calls : ℕ) (ps : Params) (s s' : ProcHack.State) (ret : ℤ) (st : St),
      ProcHack.initModule addr markFuel ps s = some (ret, s') →
      Frozen env ns tasks current →
      run (call env fuel) start (List.replicate calls s'.hooks.inProcPidReaddir) = some st →
      st.fPos = L.value + tgidOffset →
      Hides ns tasks current (accepted st.trace) := by
  intro hall
  obtain ⟨s', hload⟩ := exists_load
  have hrun : (run (call (twoNodesEnv 1 2) 0x8001) start [ProcHack.hookAt 0x1000]).map
      (fun st => (st.fPos, accepted st.trace)) =
      some ((0x8000 : ℤ) + tgidOffset, [.base "self", .process 1, .process 2]) := by
    decide +kernel
  rw [← ProcHack.initModule_hooks hload] at hrun
  obtain ⟨st, hr, hst⟩ := Option.map_eq_some_iff.mp hrun
  obtain ⟨hend, hacc⟩ := Prod.mk.inj hst
  have hhides := hall _ _ _ _ _ _ _ _ 1 _ _ _ _ _ hload (frozen_twoNodesEnv 1 2) hr hend
  rw [hacc] at hhides
  obtain ⟨task, hleader, hzero⟩ := (hhides 2).mp (by decide)
  obtain rfl : task = 2 := Option.some.inj hleader.2.1.symm
  revert hzero
  decide

end Proc
end KernelStudy
