import KernelStudy.Lib.Ring
import KernelStudy.Task

/-!
# Marking tasks with their node

Both honeypot modules take a table of process ids and node ids as parameters and
walk the task list once, giving every task the node of its process id.  The code
of `is_target_proc` and `mark_process` is the same text in `home_hack.c` and
`proc_hack.c`; only `home_hack` checks its parameters first, and pads the unused
entries with `-1`.

## Main definitions

* `Params` — the module parameters.
* `HomeHack.checkArgs` — the check, with the padding it does.
* `HomeHack.isTargetProc`, `ProcHack.isTargetProc` — the search.
* `HomeHack.markProcess`, `ProcHack.markProcess` — the pass over the tasks.
* `NodeOf ps pid node` — what the table assigns to a process id, as a relation.

## Main results

* `nodeOf_markOf` — the search finds the first entry for the process id, up to
  the first negative one.
* `markProcess_eq` — the pass ends, visits every task once and marks it.
* `mark_process_spec` — **the marking of both modules**, which agree on accepted
  parameters in either order of loading.
-/

namespace KernelStudy

/-! ### Parameters -/

/-- `PID_ARRAY_MAX`. -/
def pidArrayMax : ℕ := 16

/-- The module parameters.  The loader stores no more than `PID_ARRAY_MAX`
entries in either array. -/
structure Params where
  /-- `pid_array`. -/
  pidArray : ℕ → ℤ
  /-- `pid_array_count`. -/
  pidArrayCount : ℕ
  /-- `node_array`. -/
  nodeArray : ℕ → ℤ
  /-- `node_array_count`. -/
  nodeArrayCount : ℕ
  pidArrayCount_le : pidArrayCount ≤ pidArrayMax
  nodeArrayCount_le : nodeArrayCount ≤ pidArrayMax

/-! ### The code both modules share -/

namespace Marking

/-- The loop of `is_target_proc` from index `i` on, with `n` entries to go. -/
def isTargetProcFrom (pidArray : ℕ → ℤ) (pid : ℤ) : ℕ → ℕ → ℤ
  | 0, _ => -1
  | n + 1, i =>
      if pidArray i < 0 then -1
      else if pidArray i = pid then i
      else isTargetProcFrom pidArray pid n (i + 1)

/-- `is_target_proc`: the index of a process id, or `-1`. -/
def isTargetProc (ps : Params) (candidatePid : ℤ) : ℤ :=
  isTargetProcFrom ps.pidArray candidatePid ps.pidArrayCount 0

/-- The node `mark_process` gives to a process id. -/
def markOf (ps : Params) (pid : ℤ) : ℤ :=
  let nodeIndex := isTargetProc ps pid
  if 0 ≤ nodeIndex then ps.nodeArray nodeIndex.toNat else -1

/-- The address of `init_task`. -/
def initTask : TaskPtr := 0

/-- The body of the loop of `mark_process`, with a record of the tasks visited. -/
def markTask (ps : Params) (s : TaskHeap × List TaskPtr) (task : TaskPtr) :
    TaskHeap × List TaskPtr :=
  (Function.update s.1 task { s.1 task with hpNode := markOf ps (s.1 task).pid },
    s.2 ++ [task])

/-- `mark_process`: the tasks afterwards and those visited, in order. -/
def markProcess (fuel : ℕ) (ps : Params) (tasks : TaskHeap) : Option (TaskHeap × List TaskPtr) :=
  ringLoop (fun s t => (s.1 t).next) (markTask ps) initTask fuel (tasks, []) initTask

end Marking

/-! ### The two modules -/

namespace HomeHack

/-- `is_target_proc` of `home_hack.c`. -/
def isTargetProc : Params → ℤ → ℤ := Marking.isTargetProc

/-- `check_args`: its result, and the parameters with unused entries padded. -/
def checkArgs (ps : Params) : ℤ × Params :=
  if ps.pidArrayCount = 0 then (-1, ps)
  else if ps.pidArrayCount ≠ ps.nodeArrayCount then (-1, ps)
  else
    let pad (a : ℕ → ℤ) (i : ℕ) : ℤ := if ps.pidArrayCount ≤ i ∧ i < pidArrayMax then -1 else a i
    (0, { ps with pidArray := pad ps.pidArray, nodeArray := pad ps.nodeArray })

/-- `mark_process` of `home_hack.c`. -/
def markProcess : ℕ → Params → TaskHeap → Option (TaskHeap × List TaskPtr) :=
  Marking.markProcess

end HomeHack

namespace ProcHack

/-- `is_target_proc` of `proc_hack.c`. -/
def isTargetProc : Params → ℤ → ℤ := Marking.isTargetProc

/-- `mark_process` of `proc_hack.c`. -/
def markProcess : ℕ → Params → TaskHeap → Option (TaskHeap × List TaskPtr) :=
  Marking.markProcess

end ProcHack

/-! ### The search -/

namespace Marking

/-- Entry `k` is the process id, and no entry up to it is negative. -/
def IsTarget (ps : Params) (pid : ℤ) (k : ℕ) : Prop :=
  k < ps.pidArrayCount ∧ ps.pidArray k = pid ∧ ∀ j ≤ k, 0 ≤ ps.pidArray j

/-- What the parameters assign to a process id: the node of the first entry for
it, `-1` if there is none. -/
def NodeOf (ps : Params) (pid node : ℤ) : Prop :=
  (∃ k, IsLeast {k | IsTarget ps pid k} k ∧ node = ps.nodeArray k) ∨
    ((∀ k, ¬ IsTarget ps pid k) ∧ node = -1)

/-- The loop stops at the first entry that is the process id or negative. -/
theorem isTargetProcFrom_cases (a : ℕ → ℤ) (pid : ℤ) : ∀ n i : ℕ,
    (∃ k, i ≤ k ∧ k < i + n ∧ a k = pid ∧ (∀ j, i ≤ j → j ≤ k → 0 ≤ a j) ∧
        (∀ j, i ≤ j → j < k → a j ≠ pid) ∧ isTargetProcFrom a pid n i = k) ∨
      ((∀ k, i ≤ k → k < i + n → a k = pid → ∃ j, i ≤ j ∧ j ≤ k ∧ a j < 0) ∧
        isTargetProcFrom a pid n i = -1) := by
  intro n
  induction n with
  | zero => intro i; exact Or.inr ⟨fun k h₁ h₂ => by omega, rfl⟩
  | succ n ih =>
    intro i
    rw [isTargetProcFrom]
    split
    · next hneg => exact Or.inr ⟨fun k hk _ _ => ⟨i, le_rfl, hk, hneg⟩, rfl⟩
    · next hpos =>
      split
      · next heq =>
        refine Or.inl ⟨i, le_rfl, by omega, heq, ?_, ?_, rfl⟩
        · intro j h₁ h₂
          have : j = i := by omega
          subst this
          omega
        · intro j h₁ h₂
          omega
      · next hne =>
        -- entry `i` is neither, so both answers carry over from the rest
        rcases ih (i + 1) with ⟨k, hik, hk, hak, hnn, hfirst, hres⟩ | ⟨hnone, hres⟩
        · refine Or.inl ⟨k, by omega, by omega, hak, ?_, ?_, hres⟩
          · intro j h₁ h₂
            rcases Nat.eq_or_lt_of_le h₁ with rfl | h₁
            · omega
            · exact hnn j h₁ h₂
          · intro j h₁ h₂
            rcases Nat.eq_or_lt_of_le h₁ with rfl | h₁
            · exact hne
            · exact hfirst j h₁ h₂
        · refine Or.inr ⟨?_, hres⟩
          intro k h₁ h₂ hk
          rcases Nat.eq_or_lt_of_le h₁ with rfl | h₁
          · exact absurd hk hne
          · obtain ⟨j, hj₁, hj₂, hj⟩ := hnone k h₁ (by omega) hk
            exact ⟨j, by omega, hj₂, hj⟩

/-- **The search finds what the parameters assign.** -/
theorem nodeOf_markOf (ps : Params) (pid : ℤ) : NodeOf ps pid (markOf ps pid) := by
  unfold markOf isTargetProc
  rcases isTargetProcFrom_cases ps.pidArray pid ps.pidArrayCount 0 with
    ⟨k, -, hk, hak, hnn, hfirst, hres⟩ | ⟨hnone, hres⟩
  · refine Or.inl ⟨k, ⟨⟨by omega, hak, fun j hj => hnn j (by omega) hj⟩, ?_⟩, by simp [hres]⟩
    intro j hj
    by_contra hlt
    exact hfirst j (by omega) (by omega) hj.2.1
  · refine Or.inr ⟨?_, by simp [hres]⟩
    rintro k ⟨hk, hak, hnn⟩
    obtain ⟨j, -, hjk, hj⟩ := hnone k (by omega) (by omega) hak
    have := hnn j hjk
    omega

/-- The search looks only at entries below the count. -/
theorem isTargetProcFrom_congr {a b : ℕ → ℤ} {pid : ℤ} : ∀ n i : ℕ,
    (∀ j, i ≤ j → j < i + n → a j = b j) →
      isTargetProcFrom a pid n i = isTargetProcFrom b pid n i := by
  intro n
  induction n with
  | zero => intro i _; rfl
  | succ n ih =>
    intro i h
    rw [isTargetProcFrom, isTargetProcFrom, h i le_rfl (by omega),
      ih (i + 1) fun j h₁ h₂ => h j (by omega) (by omega)]

/-- A result of the search is an index below the count. -/
theorem isTargetProc_lt {ps : Params} {pid : ℤ} (h : 0 ≤ isTargetProc ps pid) :
    (isTargetProc ps pid).toNat < ps.pidArrayCount := by
  unfold isTargetProc at h ⊢
  rcases isTargetProcFrom_cases ps.pidArray pid ps.pidArrayCount 0 with
    ⟨k, -, hk, -, -, -, hres⟩ | ⟨-, hres⟩
  · rw [hres]
    omega
  · rw [hres] at h
    omega

/-! ### The pass -/

/-- The tasks after the pass: those in `l` carry their node. -/
def marked (ps : Params) (l : List TaskPtr) (tasks : TaskHeap) : TaskHeap := fun t =>
  if t ∈ l then { tasks t with hpNode := markOf ps (tasks t).pid } else tasks t

theorem marked_next (ps : Params) (l : List TaskPtr) (tasks : TaskHeap) :
    (fun t => (marked ps l tasks t).next) = fun t => (tasks t).next := by
  funext t
  unfold marked
  split <;> rfl

/-- A second pass changes nothing. -/
theorem marked_marked (ps : Params) (l : List TaskPtr) (tasks : TaskHeap) :
    marked ps l (marked ps l tasks) = marked ps l tasks := by
  funext t
  by_cases ht : t ∈ l
  · simp [marked, ht]
  · simp [marked, ht]

theorem foldl_markTask (ps : Params) : ∀ (l : List TaskPtr) (s : TaskHeap × List TaskPtr),
    l.foldl (markTask ps) s =
      (l.foldl (fun h t => Function.update h t { h t with hpNode := markOf ps (h t).pid }) s.1,
        s.2 ++ l) := by
  intro l
  induction l with
  | nil => intro s; simp
  | cons t l ih => intro s; rw [List.foldl_cons, ih]; simp [markTask]

/-- **The pass ends, visits every task of the ring once, in order, and marks
it.** -/
theorem markProcess_eq {ps : Params} {fuel : ℕ} {tasks : TaskHeap} {rest : List TaskPtr}
    (hring : IsRing (fun t => (tasks t).next) initTask rest) (hfuel : rest.length < fuel) :
    markProcess fuel ps tasks = some (marked ps (initTask :: rest) tasks, initTask :: rest) := by
  have hbody : ∀ (s : TaskHeap × List TaskPtr) (x : TaskPtr),
      (fun t => ((markTask ps s x).1 t).next) = fun t => (s.1 t).next := by
    intro s x
    funext t
    by_cases ht : t = x
    · subst ht
      simp [markTask]
    · simp [markTask, ht]
  unfold markProcess
  rw [ringLoop_eq_foldl hbody hring hfuel, foldl_markTask]
  refine congrArg some (Prod.ext ?_ (List.nil_append _))
  funext t
  exact foldl_update_apply (fun k : TaskStruct => { k with hpNode := markOf ps k.pid })
    (initTask :: rest) tasks t hring.nodup

/-- The marking depends only on the entries below the count. -/
theorem markOf_congr {ps qs : Params} (hcount : qs.pidArrayCount = ps.pidArrayCount)
    (hpid : ∀ i < ps.pidArrayCount, qs.pidArray i = ps.pidArray i)
    (hnode : ∀ i < ps.pidArrayCount, qs.nodeArray i = ps.nodeArray i) (pid : ℤ) :
    markOf qs pid = markOf ps pid := by
  have hsearch : isTargetProc qs pid = isTargetProc ps pid := by
    unfold isTargetProc
    rw [hcount]
    exact isTargetProcFrom_congr _ 0 fun j _ hj => hpid j (by omega)
  unfold markOf
  rw [hsearch]
  dsimp only
  split
  · next h => exact hnode _ (isTargetProc_lt h)
  · rfl

/-- The padding of `check_args` does not show in the marking. -/
theorem markOf_checkArgs (ps : Params) (pid : ℤ) :
    markOf (HomeHack.checkArgs ps).2 pid = markOf ps pid := by
  unfold HomeHack.checkArgs
  split
  · rfl
  · split
    · rfl
    · refine markOf_congr ?_ ?_ ?_ pid
      · rfl
      · intro i hi
        exact if_neg fun h => by omega
      · intro i hi
        exact if_neg fun h => by omega

theorem marked_checkArgs (ps : Params) (l : List TaskPtr) (tasks : TaskHeap) :
    marked (HomeHack.checkArgs ps).2 l tasks = marked ps l tasks := by
  funext t
  simp only [marked, markOf_checkArgs]

/-- **Marking of tasks with node ids**, for any ring of tasks through
`init_task`.  `home_hack` marks with the parameters as `check_args` leaves them,
`proc_hack` with the parameters as given; both end up with the same tasks, and
loading the other module afterwards changes nothing. -/
theorem mark_process_spec (ps : Params) (tasks : TaskHeap) (rest : List TaskPtr)
    (hring : IsRing (fun t => (tasks t).next) initTask rest) :
    ∃ tasks' : TaskHeap,
      (∀ fuel, rest.length < fuel →
        HomeHack.markProcess fuel (HomeHack.checkArgs ps).2 tasks =
          some (tasks', initTask :: rest)) ∧
      (initTask :: rest).Nodup ∧
      (∀ t ∈ initTask :: rest, NodeOf ps (tasks t).pid (tasks' t).hpNode) ∧
      (∀ t, tasks' t = { tasks t with hpNode := (tasks' t).hpNode }) ∧
      (∀ t, t ∉ initTask :: rest → tasks' t = tasks t) ∧
      (∀ fuel, rest.length < fuel →
        ProcHack.markProcess fuel ps tasks = some (tasks', initTask :: rest) ∧
        ProcHack.markProcess fuel ps tasks' = some (tasks', initTask :: rest) ∧
        HomeHack.markProcess fuel (HomeHack.checkArgs ps).2 tasks' =
          some (tasks', initTask :: rest)) := by
  have hhome : ∀ (h : TaskHeap) (fuel : ℕ), IsRing (fun t => (h t).next) initTask rest →
      rest.length < fuel → HomeHack.markProcess fuel (HomeHack.checkArgs ps).2 h =
        some (marked ps (initTask :: rest) h, initTask :: rest) := by
    intro h fuel hh hfuel
    rw [← marked_checkArgs]
    exact markProcess_eq hh hfuel
  have hring' : IsRing (fun t => (marked ps (initTask :: rest) tasks t).next) initTask rest := by
    rw [marked_next]
    exact hring
  refine ⟨marked ps (initTask :: rest) tasks, fun fuel hfuel => hhome tasks fuel hring hfuel,
    hring.nodup, ?_, ?_, ?_, fun fuel hfuel => ⟨markProcess_eq hring hfuel, ?_, ?_⟩⟩
  · intro t ht
    rw [marked, if_pos ht]
    exact nodeOf_markOf ps (tasks t).pid
  · intro t
    unfold marked
    split <;> rfl
  · intro t ht
    rw [marked, if_neg ht]
  · exact (markProcess_eq hring' hfuel).trans (by rw [marked_marked])
  · rw [hhome _ fuel hring' hfuel, marked_marked]

theorem one_le_pidArrayMax : 1 ≤ pidArrayMax := by decide

/-- One parameter pair. -/
def onePair (pid node : ℤ) : Params where
  pidArray := fun i => if i = 0 then pid else 0
  pidArrayCount := 1
  nodeArray := fun i => if i = 0 then node else 0
  nodeArrayCount := 1
  pidArrayCount_le := one_le_pidArrayMax
  nodeArrayCount_le := one_le_pidArrayMax

/-- A ring of two tasks, of the given process ids. -/
def twoRing (pid₀ pid₁ : ℤ) : TaskHeap := fun t =>
  if t = 0 then ⟨pid₀, pid₀, 0, fun _ => 0, 1⟩ else ⟨pid₁, pid₁, 0, fun _ => 0, 0⟩

theorem isRing_twoRing (pid₀ pid₁ : ℤ) :
    IsRing (fun t => (twoRing pid₀ pid₁ t).next) initTask [1] :=
  ⟨by decide, rfl, Nat.one_ne_zero, rfl⟩

/-- The task with process id 4232 is put into node 1, `init_task` into none. -/
theorem mark_process_two_tasks :
    ∃ tasks' : TaskHeap,
      HomeHack.markProcess 2 (HomeHack.checkArgs (onePair 4232 1)).2 (twoRing 0 4232) =
        some (tasks', [0, 1]) ∧
      NodeOf (onePair 4232 1) 4232 (tasks' 1).hpNode := by
  obtain ⟨tasks', hhome, -, hnode, -⟩ :=
    mark_process_spec (onePair 4232 1) (twoRing 0 4232) [1] (isRing_twoRing 0 4232)
  exact ⟨tasks', hhome 2 (by decide), hnode 1 (by decide)⟩

/-- A negative entry ends the table even for a task with that very process id. -/
theorem negative_pid_not_marked :
    ¬ ∀ (ps : Params) (tasks : TaskHeap) (rest : List TaskPtr) (fuel : ℕ) (tasks' : TaskHeap)
        (visited : List TaskPtr),
      (HomeHack.checkArgs ps).1 = 0 → IsRing (fun t => (tasks t).next) initTask rest →
      HomeHack.markProcess fuel (HomeHack.checkArgs ps).2 tasks = some (tasks', visited) →
      ∀ t ∈ initTask :: rest, ∀ k,
        IsLeast {k | k < ps.pidArrayCount ∧ ps.pidArray k = (tasks t).pid ∧
          ∀ j < k, 0 ≤ ps.pidArray j} k → (tasks' t).hpNode = ps.nodeArray k := by
  intro h
  have hrun : (HomeHack.markProcess 2 (HomeHack.checkArgs (onePair (-5) 1)).2
      (twoRing 0 (-5))).map (fun r => (r.1 1).hpNode) = some (-1) := by decide
  obtain ⟨⟨tasks', visited⟩, hmark, hnode⟩ := Option.map_eq_some_iff.mp hrun
  have hmarked := h _ _ [1] 2 tasks' visited (by decide) (isRing_twoRing 0 (-5)) hmark 1 (by decide)
    0 ⟨⟨by decide, by decide, fun j hj => by omega⟩, fun j _ => Nat.zero_le j⟩
  rw [hnode] at hmarked
  revert hmarked
  decide

end Marking
end KernelStudy
