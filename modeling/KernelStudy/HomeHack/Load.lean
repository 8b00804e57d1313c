import KernelStudy.Marking
import KernelStudy.Syscall.Table

/-!
# Loading `home_hack`

`init_module` of `home_hack.c` checks its arguments, marks every task, and
installs seven hooks one after another.  When an installation fails it returns
at once.  The kernel then frees the module without calling `cleanup_module`, and
what the earlier steps did stays.

## Main definitions

* `System` — the table and the tasks.
* `initModule`, `cleanupModule` — the two entry points.
* `LeavesNoTrace` — the inputs on which a failed load has done nothing yet.

## Main results

* `initModule_eq` — what a load does, once the task ring is known.
* `initModule_failure_iff` — **a failed load leaves the system as it was exactly
  on these inputs.**
-/

namespace KernelStudy

/-- The kernel state a load of `home_hack` changes. -/
structure System (α : Type*) where
  /-- `sys_call_table`. -/
  table : SysCallTable α
  /-- The task list. -/
  tasks : TaskHeap

namespace HomeHack

open Marking

variable {α : Type*} [DecidableEq α] (nr : Call ↪ ℕ) (wrapper : Call → α) (sticks : Call → Bool)

/-- `init_module`: its result, the system, and the pointers it has saved. -/
def initModule (fuel : ℕ) (ps : Params) (original : Call → α) (sys : System α) :
    Option (ℤ × System α × (Call → α)) :=
  let args := checkArgs ps
  if args.1 < 0 then some (-1, sys, original)
  else
    match markProcess fuel args.2 sys.tasks with
    | none => none
    | some (tasks, _) =>
        let r := addHooks nr wrapper sticks hookOrder ⟨sys.table, original⟩
        some (r.1, ⟨r.2.table, tasks⟩, r.2.original)

/-- `cleanup_module`. -/
def cleanupModule (original : Call → α) (table : SysCallTable α) : SysCallTable α :=
  cleanupHooks nr wrapper original hookOrder table

/-- The inputs on which a failed load has done nothing: the arguments are
rejected, or no installation fails, or every task already carries its node and
the entries hooked before the first failure already held the wrappers. -/
def LeavesNoTrace (ps : Params) (sys : System α) (rest : List TaskPtr) : Prop :=
  (checkArgs ps).1 < 0 ∨ (∀ c, fails nr wrapper sticks sys.table c = false) ∨
    ((∀ t ∈ initTask :: rest, (sys.tasks t).hpNode = markOf ps (sys.tasks t).pid) ∧
      ∀ c ∈ hookOrder.takeWhile fun c => !fails nr wrapper sticks sys.table c,
        sys.table (nr c) = wrapper c)

variable {nr wrapper sticks}

/-- **What a load does.** -/
theorem initModule_eq {fuel : ℕ} {ps : Params} {original : Call → α} {sys : System α}
    {rest : List TaskPtr} (hring : IsRing (fun t => (sys.tasks t).next) initTask rest)
    (hfuel : rest.length < fuel) :
    initModule nr wrapper sticks fuel ps original sys =
      if (checkArgs ps).1 < 0 then some (-1, sys, original)
      else
        let r := addHooks nr wrapper sticks hookOrder ⟨sys.table, original⟩
        some (r.1, ⟨r.2.table, marked ps (initTask :: rest) sys.tasks⟩, r.2.original) := by
  have hmark : markProcess fuel (checkArgs ps).2 sys.tasks =
      some (marked ps (initTask :: rest) sys.tasks, initTask :: rest) := by
    rw [← marked_checkArgs]
    exact markProcess_eq hring hfuel
  unfold initModule
  simp only [hmark]

theorem marked_hpNode_iff {ps : Params} {l : List TaskPtr} {tasks : TaskHeap} :
    (∀ t, (marked ps l tasks t).hpNode = (tasks t).hpNode) ↔
      ∀ t ∈ l, (tasks t).hpNode = markOf ps (tasks t).pid := by
  refine forall_congr' fun t => ?_
  by_cases ht : t ∈ l
  · simp [marked, ht, eq_comm]
  · simp [marked, ht]

/-- **A failed load leaves every table entry and every node as it was exactly
when `LeavesNoTrace` holds.** -/
theorem initModule_failure_iff (fuel : ℕ) (ps : Params) (original : Call → α) (sys : System α)
    (rest : List TaskPtr) (hring : IsRing (fun t => (sys.tasks t).next) initTask rest)
    (hfuel : rest.length < fuel) :
    ∃ ret sys' original',
      initModule nr wrapper sticks fuel ps original sys = some (ret, sys', original') ∧
      ((ret ≠ 0 → sys'.table = sys.table ∧
          ∀ t, (sys'.tasks t).hpNode = (sys.tasks t).hpNode) ↔
        LeavesNoTrace nr wrapper sticks ps sys rest) := by
  rw [initModule_eq hring hfuel]
  by_cases hargs : (checkArgs ps).1 < 0
  · rw [if_pos hargs]
    exact ⟨_, _, _, rfl, iff_of_true (fun _ => ⟨rfl, fun _ => rfl⟩) (Or.inl hargs)⟩
  · rw [if_neg hargs]
    refine ⟨_, _, _, rfl, ?_⟩
    rw [addHooks_fst _ _ nodup_hookOrder, addHooks_table _ _ nodup_hookOrder]
    unfold LeavesNoTrace
    rw [or_iff_right hargs]
    by_cases hok : ∀ c ∈ hookOrder, fails nr wrapper sticks sys.table c = false
    · rw [if_pos hok]
      exact iff_of_true (fun h => absurd rfl h) (Or.inl fun c => hok c (mem_hookOrder c))
    · have hsome : ¬ ∀ c, fails nr wrapper sticks sys.table c = false :=
        fun h => hok fun c _ => h c
      rw [if_neg hok, or_iff_right hsome, install_eq_self_iff, marked_hpNode_iff, and_comm]
      exact ⟨fun h => h (by decide), fun h _ => h⟩

/-- The table before a load, and two tasks without a node. -/
def freshSystem : System ℕ := ⟨fun _ => 0, twoRing 0 4232⟩

/-- The store to the entry of `chdir` is lost. -/
def chdirLost : Call → Bool := fun c => c ≠ .sysChdir

theorem chdir_failure_spec :
    ∃ ret sys' original',
      initModule i386Nr (fun _ => 1) chdirLost 2 (onePair 4232 1) (fun _ => 0) freshSystem =
        some (ret, sys', original') ∧
      ((ret ≠ 0 → sys'.table = freshSystem.table ∧
          ∀ t, (sys'.tasks t).hpNode = (freshSystem.tasks t).hpNode) ↔
        LeavesNoTrace i386Nr (fun _ => 1) chdirLost (onePair 4232 1) freshSystem [1]) :=
  initModule_failure_iff 2 _ _ _ [1] (isRing_twoRing 0 4232) (by decide)

/-- If the second hook fails, the first one stays in the table. -/
theorem failed_load_leaves_hook :
    ¬ ∀ (wrapper : Call → ℕ) (sticks : Call → Bool) (fuel : ℕ) (ps : Params) (original : Call → ℕ)
        (sys : System ℕ) (rest : List TaskPtr) (ret : ℤ) (sys' : System ℕ) (original' : Call → ℕ),
      IsRing (fun t => (sys.tasks t).next) initTask rest →
      initModule i386Nr wrapper sticks fuel ps original sys = some (ret, sys', original') →
      ret ≠ 0 →
      sys'.table = sys.table ∧ ∀ t, (sys'.tasks t).hpNode = (sys.tasks t).hpNode := by
  intro h
  have hrun : (initModule i386Nr (fun _ => 1) chdirLost 2 (onePair 4232 1) (fun _ => 0)
      freshSystem).map (fun r => (r.1, r.2.1.table 5)) = some (-1, 1) := by decide
  obtain ⟨⟨ret, sys', original'⟩, hinit, hres⟩ := Option.map_eq_some_iff.mp hrun
  rw [Prod.mk.injEq] at hres
  have htable := (h _ _ 2 _ _ _ [1] ret sys' original' (isRing_twoRing 0 4232) hinit
    (by rw [show ret = -1 from hres.1]; decide)).1
  have h5 : sys'.table 5 = 0 := congrFun htable 5
  rw [show sys'.table 5 = 1 from hres.2] at h5
  cases h5

end HomeHack
end KernelStudy
