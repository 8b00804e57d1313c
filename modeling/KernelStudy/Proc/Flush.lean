import KernelStudy.Lib.NameTree
import KernelStudy.Proc.Names
import KernelStudy.Task

/-!
# Flushing the entries of a task that exits

When a task exits, `proc_flush_task` takes its entries out of the dentry cache, in
every namespace that the task was seen in.  By its comment it flushes
`/proc/<pid>` and `/proc/<tgid>/task/<pid>`.  It looks for the second only if the task
is the leader of its group; then the two numbers are the same, and the path begins
with the one that has just been dropped.

## Main definitions

* `Dcache` — the names that can be reached in the cache of one mount.
* `procFlushTaskMnt`, `procFlushTask` — the code.

## Main results

* `flush_task` — **the entries below `/proc/<pid>` are gone, and no others**: the second
  search never finds anything.
-/

namespace KernelStudy
namespace Proc

/-! ### The code -/

/-- The names that can be reached in the dentry cache, from the root of one mount. -/
abbrev Dcache := NameTree (List UInt8)

/-- `d_hash_and_lookup`, below a directory. -/
def dHashAndLookup (t : Dcache) (dir : List (List UInt8)) (name : List UInt8) :
    Option (List (List UInt8)) :=
  if dir ++ [name] ∈ t.nodes then some (dir ++ [name]) else none

/-- The surroundings of an exiting task. -/
structure FlushEnv where
  /-- `current->flags & PF_EXITING`. -/
  exiting : Bool
  /-- `shrink_dcache_parent`, which prunes entries below a dentry that are not in use. -/
  shrinkDcacheParent : List (List UInt8) → Dcache → Dcache
  shrink_thins : ∀ p t, NameTree.Thins p t (shrinkDcacheParent p t)

/-- `proc_flush_task_mnt`. -/
def procFlushTaskMnt (env : FlushEnv) (t : Dcache) (pid tgid : ℕ) : Dcache :=
  let t :=
    match dHashAndLookup t [] (intText pid) with
    | none => t
    | some dentry =>
        -- a task that exits leaves the shrinking to others
        let t := if env.exiting then t else env.shrinkDcacheParent dentry t
        t.prune dentry
  -- the entry in the directory of its process, which only a leader asks for
  if tgid = 0 then t
  else
    match dHashAndLookup t [] (intText tgid) with
    | none => t
    | some leader =>
        match dHashAndLookup t leader (bytes "task") with
        | none => t
        | some dir =>
            match dHashAndLookup t dir (intText pid) with
            | none => t
            | some dentry => (env.shrinkDcacheParent dentry t).prune dentry

/-- The tasks, as far as their numbers go. -/
structure TaskPids where
  /-- `task_pid(task)->numbers`: one number for each namespace the task is seen in. -/
  numbers : TaskPtr → List ℕ
  /-- `task->group_leader`. -/
  groupLeader : TaskPtr → TaskPtr

/-- `thread_group_leader`. -/
def threadGroupLeader (pids : TaskPids) (task : TaskPtr) : Bool := pids.groupLeader task == task

/-- `task_tgid`: the pid of the leader. -/
def taskTgid (pids : TaskPids) (task : TaskPtr) : List ℕ := pids.numbers (pids.groupLeader task)

/-- `tgid ? tgid->numbers[i].nr : 0`. -/
def tgidNr (tgid : Option (List ℕ)) (i : ℕ) : ℕ :=
  match tgid with
  | none => 0
  | some numbers => numbers.getD i 0

/-- The loop of `proc_flush_task` over the namespaces, whose mounts are `mnts`. -/
def flushLoop (env : FlushEnv) (tgid : Option (List ℕ)) : ℕ → List ℕ → List Dcache → List Dcache
  | i, nr :: numbers, t :: mnts =>
      procFlushTaskMnt env t nr (tgidNr tgid i) :: flushLoop env tgid (i + 1) numbers mnts
  | _, _, mnts => mnts

/-- `proc_flush_task`. -/
def procFlushTask (env : FlushEnv) (pids : TaskPids) (task : TaskPtr) (mnts : List Dcache) :
    List Dcache :=
  let tgid := if threadGroupLeader pids task then some (taskTgid pids task) else none
  flushLoop env tgid 0 (pids.numbers task) mnts

/-! ### What is flushed -/

variable {env : FlushEnv} {t : Dcache} {pids : TaskPids} {task : TaskPtr} {mnts : List Dcache}

/-- The first search drops the entries below `/proc/<pid>`. -/
theorem prune_of_first_search (env : FlushEnv) (t : Dcache) (pid : ℕ) :
    (match dHashAndLookup t [] (intText pid) with
      | none => t
      | some dentry =>
          let t := if env.exiting then t else env.shrinkDcacheParent dentry t
          t.prune dentry) = t.prune [intText pid] := by
  unfold dHashAndLookup
  rw [List.nil_append]
  by_cases h : [intText pid] ∈ t.nodes
  · rw [if_pos h]
    dsimp only
    split
    · rfl
    · exact NameTree.prune_of_thins (env.shrink_thins _ _)
  · rw [if_neg h]
    exact (NameTree.prune_eq_self_iff.mpr h).symm

/-- **The second search finds nothing**: the number it starts with is 0, or that of the
entry that has just been dropped. -/
theorem procFlushTaskMnt_eq {pid tgid : ℕ} (h : tgid = 0 ∨ tgid = pid) :
    procFlushTaskMnt env t pid tgid = t.prune [intText pid] := by
  unfold procFlushTaskMnt
  dsimp only
  rw [prune_of_first_search]
  split
  · rfl
  · next hne =>
    obtain rfl := h.resolve_left hne
    have hgone : [intText tgid] ∉ (t.prune [intText tgid]).nodes := by
      rw [NameTree.mem_prune]
      exact fun hmem => hmem.2 List.prefix_rfl
    rw [dHashAndLookup, List.nil_append, if_neg hgone]

/-- The loop does so in each namespace. -/
theorem flushLoop_getElem {tgid : Option (List ℕ)} : ∀ (numbers : List ℕ) (mnts : List Dcache)
    (i : ℕ), (∀ k nr, numbers[k]? = some nr → tgidNr tgid (i + k) = 0 ∨ tgidNr tgid (i + k) = nr) →
    ∀ (k nr : ℕ) (t : Dcache), numbers[k]? = some nr → mnts[k]? = some t →
      (flushLoop env tgid i numbers mnts)[k]? = some (t.prune [intText nr]) := by
  intro numbers
  induction numbers with
  | nil => intro mnts i _ k nr t hnr; cases hnr
  | cons nr₀ numbers ih =>
    intro mnts i h k nr t hnr ht
    cases mnts with
    | nil => cases ht
    | cons t₀ mnts =>
      rw [flushLoop]
      cases k with
      | zero =>
        cases hnr
        cases ht
        have hfirst : tgidNr tgid i = 0 ∨ tgidNr tgid i = nr₀ := h 0 nr₀ rfl
        rw [List.getElem?_cons_zero, procFlushTaskMnt_eq hfirst]
      | succ k =>
        rw [List.getElem?_cons_succ] at hnr ht ⊢
        refine ih mnts (i + 1) ?_ k nr t hnr ht
        intro k nr' hk
        have hstep := h (k + 1) nr' hk
        rw [show i + 1 + k = i + (k + 1) by omega]
        exact hstep

/-- The second number is that of the task itself. -/
theorem tgidNr_eq {k nr : ℕ} (hnr : (pids.numbers task)[k]? = some nr) :
    tgidNr (if threadGroupLeader pids task then some (taskTgid pids task) else none) k = 0 ∨
      tgidNr (if threadGroupLeader pids task then some (taskTgid pids task) else none) k = nr := by
  split
  · next hleader =>
    right
    have heq : pids.groupLeader task = task := by simpa [threadGroupLeader] using hleader
    rw [tgidNr, taskTgid, heq, List.getD_eq_getElem?_getD, hnr]
    rfl
  · exact Or.inl rfl

/-- **The entries below `/proc/<pid>` are gone in every namespace, and no others**: in
particular the entry of a thread in the directory of its process stays where it is, if
its leader has another number. -/
theorem flush_task (env : FlushEnv) (pids : TaskPids) (task : TaskPtr) (mnts : List Dcache)
    {i nr : ℕ} {t : Dcache} (hnr : (pids.numbers task)[i]? = some nr) (ht : mnts[i]? = some t) :
    ∃ t', (procFlushTask env pids task mnts)[i]? = some t' ∧
      (∀ path, path ∈ t'.nodes ↔ path ∈ t.nodes ∧ ¬ [intText nr] <+: path) ∧
      ∀ tgid : ℕ, tgid ≠ nr → ([intText tgid, bytes "task", intText nr] ∈ t'.nodes ↔
        [intText tgid, bytes "task", intText nr] ∈ t.nodes) := by
  refine ⟨t.prune [intText nr], ?_, fun path => NameTree.mem_prune, ?_⟩
  · refine flushLoop_getElem _ mnts 0 ?_ i nr t hnr ht
    intro k nr' hk
    rw [Nat.zero_add]
    exact tgidNr_eq hk
  · intro tgid hne
    rw [NameTree.mem_prune, and_iff_left_iff_imp]
    intro _ hpre
    have heq := (List.cons_prefix_cons.mp hpre).1
    rw [intText_natCast, intText_natCast] at heq
    exact hne (natText_inj heq).symm

/-- A process and one more thread of it, in one namespace. -/
def processWithThread : TaskPids where
  numbers := fun task => [4231 + task]
  groupLeader := fun _ => 1

/-- The cache after `/proc/4232/task/4233` was used. -/
def cachedThread : Dcache where
  nodes := ([bytes "4232", bytes "task", bytes "4233"].inits).toFinset
  closed := by
    intro p q hp hq
    rw [List.mem_toFinset, List.mem_inits] at hp ⊢
    exact hq.trans hp

/-- Thread 4233 exits, and its entry stays in the cache. -/
theorem exited_thread_stays_cached :
    ∃ t', (procFlushTask ⟨true, fun _ t => t, fun p t => .refl p t⟩ processWithThread 2
      [cachedThread])[0]? = some t' ∧ [bytes "4232", bytes "task", bytes "4233"] ∈ t'.nodes := by
  obtain ⟨t', ht', -, hstays⟩ := flush_task ⟨true, fun _ t => t, fun p t => .refl p t⟩
    processWithThread 2 [cachedThread] (i := 0) rfl rfl
  refine ⟨t', ht', (hstays 4232 (by decide)).mpr ?_⟩
  decide

end Proc
end KernelStudy
