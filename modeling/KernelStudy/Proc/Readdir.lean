import KernelStudy.Lib.Run
import KernelStudy.Lib.Sweep
import KernelStudy.Proc.Entries

/-!
# The patched `proc_pid_readdir`

`proc_pid_readdir` of `fs/proc/base.c` lists `/proc` from `f_pos` on: first the
fixed entries, then one entry for each thread-group leader of the pid namespace,
found by `next_tgid`.  The patch calls `honeypot_hooks.in_proc_pid_readdir` before
each process entry.  The hook has the type `void (*)(void)`: it is passed nothing
and its result is not looked at.  An entry that is not in the dentry cache yet is
made before `filldir` is called; for a process, that looks for the task at the
process's pid once more.

Processes come and go while the directory is read.  A clock numbers the moments
at which the code looks at its surroundings, and `Env` says what it finds at each
of them; nothing relates one moment to the next.

## Main definitions

* `PidNamespace`, `findGePid` — the namespace, and what is assumed of
  `find_ge_pid`.
* `NormalHook`, `HookFrame` — a hook, and what it can look at.
* `Env`, `St` — the surroundings, and the state of a directory that is read.
* `nextTgid`, `procFillCache`, `procPidReaddir` — the code.
* `accepted` — the entries that `filldir` has taken.
* `call` — one call that returns, as a step.

## Main results

* `procFillCache_hands`, `procPidFillCache_trace` — what filling an entry does.
* `scanLoop_succ` — one pass of the loop over the processes.
* `call_eq_some_iff` — everything a call that returns can have done.
-/

namespace KernelStudy
namespace Proc

/-! ### Constants -/

/-- `FIRST_PROCESS_ENTRY`. -/
def firstProcessEntry : ℕ := 256

/-- The names of `proc_base_stuff`. -/
def procBaseStuff : List String := ["self"]

/-- `TGID_OFFSET`. -/
def tgidOffset : ℕ := firstProcessEntry + procBaseStuff.length

/-- A value of `PID_MAX_LIMIT`, which no configuration puts above four million. -/
structure PidLimit where
  /-- The value. -/
  value : ℕ
  le : value ≤ 4 * 1024 * 1024

/-! ### The namespace -/

/-- A pid namespace. -/
structure PidNamespace (L : PidLimit) where
  /-- The numbers of its live pids. -/
  pids : Finset ℕ
  /-- `pid_task` of a pid, null when no task is attached to it. -/
  pidTask : ℕ → Option TaskPtr
  lt_limit : ∀ nr ∈ pids, nr < L.value

/-- `find_ge_pid`: the least pid of the namespace from `nr` on. -/
def findGePid {L : PidLimit} (ns : PidNamespace L) (nr : ℕ) : Option ℕ := leastGe ns.pids nr

/-- `struct tgid_iter`. -/
structure TgidIter where
  /-- An `unsigned int`. -/
  tgid : ℕ
  /-- The task, or null. -/
  task : Option TaskPtr

/-! ### The hook -/

/-- What a hook can look at when it is called. -/
structure HookFrame where
  /-- `current`. -/
  current : TaskPtr
  /-- The tasks. -/
  tasks : TaskHeap
  /-- What stands where the first argument of a function would be, if that is a
  readable pointer to an iterator.  The call does not put anything there. -/
  arg : Option TgidIter

/-- A function pointer of type `normal_hook`: the address, and what a call does.
The function can change neither the iterator nor `f_pos`; it returns the value of
the result register, or faults. -/
structure NormalHook where
  /-- The address. -/
  addr : ℕ
  /-- The body. -/
  body : HookFrame → Option ℤ

/-- `dummy_in_proc_pid_readdir`. -/
def dummyInProcPidReaddir : NormalHook := ⟨0, fun _ => some 0⟩

/-- `struct honeypot_hooks_s`. -/
structure HoneypotHooks where
  /-- `in_proc_pid_readdir`. -/
  inProcPidReaddir : NormalHook

/-- `honeypot_hooks` as the kernel defines it. -/
def honeypotHooks : HoneypotHooks := ⟨dummyInProcPidReaddir⟩

/-! ### The surroundings and the state -/

/-- What the code finds at each moment. -/
structure Env (L : PidLimit) extends Dir.CacheEnv where
  /-- The configuration of the kernel. -/
  config : Dir.Config
  /-- The namespace of the directory. -/
  ns : ℕ → PidNamespace L
  /-- The tasks. -/
  tasks : ℕ → TaskHeap
  /-- `get_proc_task` of the directory. -/
  reaper : ℕ → Option TaskPtr
  /-- The result of `filldir`, which refuses an entry by a negative one. -/
  filldir : ℕ → ℤ
  /-- `current`. -/
  current : ℕ → TaskPtr
  /-- The field `arg` of `HookFrame`. -/
  arg : ℕ → Option TgidIter

/-- A directory entry.  The name of a process is its number in decimal. -/
inductive Dirent where
  | base (name : String)
  | process (tgid : ℕ)
  deriving DecidableEq

/-- What a call does to its surroundings. -/
inductive Act where
  /-- `get_task_struct`. -/
  | get (task : TaskPtr)
  /-- `put_task_struct`. -/
  | put (task : TaskPtr)
  /-- The hook is called, with this iterator in the caller. -/
  | hook (iter : TgidIter)
  /-- `filldir` is called, with this result. -/
  | fill (entry : Dirent) (ret : ℤ)

/-- A directory that is read. -/
structure St where
  /-- The next moment. -/
  clock : ℕ
  /-- `filp->f_pos`. -/
  fPos : ℤ
  /-- What the calls have done. -/
  trace : List Act

/-- The directory before the first call. -/
def start : St := ⟨0, firstProcessEntry, []⟩

/-- Time passes. -/
def St.tick (st : St) : St := { st with clock := st.clock + 1 }

/-- Something is done. -/
def St.log (st : St) (a : Act) : St := { st with trace := st.trace ++ [a] }

/-- The entries that `filldir` has taken. -/
def accepted (trace : List Act) : List Dirent :=
  trace.filterMap fun
    | .fill entry ret => if ret < 0 then none else some entry
    | _ => none

/-! ### The code -/

section

variable {L : PidLimit} (env : Env L)

/-- The task of a pid, if it has one that carries the pid of its thread group. -/
def leaderTask (t nr : ℕ) : Option TaskPtr :=
  ((env.ns t).pidTask nr).filter fun task => hasGroupLeaderPid (env.tasks t task)

/-- The part of `next_tgid` from the label `retry` on. -/
def retry : ℕ → ℕ → St → Option (TgidIter × St)
  | 0, _, _ => none
  | fuel + 1, tgid, st =>
      match findGePid (env.ns st.clock) tgid with
      | none => some (⟨tgid, none⟩, st.tick)
      | some nr =>
          match leaderTask env st.clock nr with
          | none => retry fuel (u32 (nr + 1)) st.tick
          | some task => some (⟨nr, some task⟩, st.tick.log (.get task))

/-- `next_tgid`. -/
def nextTgid (fuel : ℕ) (iter : TgidIter) (st : St) : Option (TgidIter × St) :=
  match iter.task with
  | none => retry env fuel iter.tgid st
  | some task => retry env fuel iter.tgid (st.log (.put task))

/-- The task references among the acts that make an inode. -/
def taskActs (trace : List Dir.Act) : List Act :=
  trace.filterMap fun
    | .get (.task task) => some (.get task)
    | .put (.task task) => some (.put task)
    | _ => none

/-- An entry that is not cached yet is made. -/
def fillChild (instantiate : Dir.St → Dir.Lookup × Dir.St) (st : St) : St :=
  let r := Dir.fillChild env.toCacheEnv instantiate ⟨st.clock, st.fPos, 0, []⟩
  { st with clock := r.clock, trace := st.trace ++ taskActs r.trace }

/-- `proc_fill_cache`. -/
def procFillCache (entry : Dirent) (instantiate : Dir.St → Dir.Lookup × Dir.St) (st : St) :
    ℤ × St :=
  let st := fillChild env instantiate st
  (env.filldir st.clock, st.tick.log (.fill entry (env.filldir st.clock)))

/-- `proc_base_fill_cache`. -/
def procBaseFillCache (task : TaskPtr) (name : String) : St → ℤ × St :=
  procFillCache env (.base name) (Dir.procBaseInstantiate env.toTaskEnv task (Dir.lnk name))

/-- `proc_pid_fill_cache`. -/
def procPidFillCache (tgid : ℕ) (task : TaskPtr) : St → ℤ × St :=
  procFillCache env (.process tgid) (Dir.procPidInstantiate env.toTaskEnv env.config task)

/-- The loop over the fixed entries; whether it ran to its end. -/
def baseLoop (reaper : TaskPtr) : List String → St → Bool × St
  | [], st => (true, st)
  | name :: names, st =>
      let r := procBaseFillCache env reaper name st
      if r.1 < 0 then (false, r.2)
      else baseLoop reaper names { r.2 with fPos := r.2.fPos + 1 }

/-- How a call ends: it returns, or the hook faults in it. -/
inductive Outcome where
  | returned (st : St)
  | oops (st : St)

/-- The loop over the processes. -/
def scanLoop (hook : NormalHook) (inner : ℕ) : ℕ → TgidIter → St → Option Outcome
  | 0, _, _ => none
  | fuel + 1, iter, st =>
      match iter.task with
      | none => some (.returned { st with fPos := L.value + tgidOffset })
      | some task =>
          let st := { st with fPos := u32 (iter.tgid + tgidOffset) }
          let frame := ⟨env.current st.clock, env.tasks st.clock, env.arg st.clock⟩
          let st := st.log (.hook iter)
          match hook.body frame with
          | none => some (.oops st)
          | some _ =>
              let r := procPidFillCache env iter.tgid task st.tick
              if r.1 < 0 then some (.returned (r.2.log (.put task)))
              else
                match nextTgid env inner ⟨u32 (iter.tgid + 1), iter.task⟩ r.2 with
                | none => none
                | some (iter, st) => scanLoop hook inner fuel iter st

/-- `proc_pid_readdir`; `none` when the fuel runs out. -/
def procPidReaddir (fuel : ℕ) (hook : NormalHook) (st : St) : Option Outcome :=
  let nr := u32 (st.fPos - firstProcessEntry)
  match env.reaper st.clock with
  | none => some (.returned st.tick)
  | some reaper =>
      match baseLoop env reaper (procBaseStuff.drop nr) (st.tick.log (.get reaper)) with
      | (false, st) => some (.returned (st.log (.put reaper)))
      | (true, st) =>
          match nextTgid env fuel ⟨u32 (st.fPos - tgidOffset), none⟩ st with
          | none => none
          | some (iter, st) =>
              match scanLoop env hook fuel fuel iter st with
              | none => none
              | some (.oops st) => some (.oops st)
              | some (.returned st) => some (.returned (st.log (.put reaper)))

/-- One call that returns, with the hook that is installed then. -/
def call (fuel : ℕ) (st : St) (hook : NormalHook) : Option St :=
  match procPidReaddir env fuel hook st with
  | some (.returned st) => some st
  | _ => none

end

/-! ### The trace -/

@[simp] theorem accepted_append (trace trace' : List Act) :
    accepted (trace ++ trace') = accepted trace ++ accepted trace' :=
  List.filterMap_append

@[simp] theorem accepted_nil : accepted [] = [] := rfl

@[simp] theorem accepted_get (task : TaskPtr) (trace : List Act) :
    accepted (.get task :: trace) = accepted trace := rfl

@[simp] theorem accepted_put (task : TaskPtr) (trace : List Act) :
    accepted (.put task :: trace) = accepted trace := rfl

@[simp] theorem accepted_hook (iter : TgidIter) (trace : List Act) :
    accepted (.hook iter :: trace) = accepted trace := rfl

theorem accepted_fill_of_neg {ret : ℤ} (h : ret < 0) (entry : Dirent) (trace : List Act) :
    accepted (.fill entry ret :: trace) = accepted trace := by
  simp [accepted, h]

theorem accepted_fill_of_not_neg {ret : ℤ} (h : ¬ ret < 0) (entry : Dirent) (trace : List Act) :
    accepted (.fill entry ret :: trace) = entry :: accepted trace := by
  simp [accepted, h]

@[simp] theorem tick_clock (st : St) : st.tick.clock = st.clock + 1 := rfl

@[simp] theorem tick_fPos (st : St) : st.tick.fPos = st.fPos := rfl

@[simp] theorem tick_trace (st : St) : st.tick.trace = st.trace := rfl

@[simp] theorem log_clock (st : St) (a : Act) : (st.log a).clock = st.clock := rfl

@[simp] theorem log_fPos (st : St) (a : Act) : (st.log a).fPos = st.fPos := rfl

@[simp] theorem log_trace (st : St) (a : Act) : (st.log a).trace = st.trace ++ [a] := rfl

/-! ### Filling an entry -/

theorem accepted_taskActs (trace : List Dir.Act) : accepted (taskActs trace) = [] := by
  simp only [accepted, taskActs, List.filterMap_filterMap, List.filterMap_eq_nil_iff]
  intro a _
  cases a with
  | get x => cases x <;> rfl
  | put x => cases x <;> rfl
  | fill name task ret => rfl

/-- One entry is handed to `filldir`, with the result of `r`. -/
structure Hands (entry : Dirent) (st : St) (r : ℤ × St) : Prop where
  clock : st.clock < r.2.clock
  fPos : r.2.fPos = st.fPos
  accepted_eq : accepted r.2.trace = accepted st.trace ++ if r.1 < 0 then [] else [entry]

/-- **An entry is handed to `filldir` once**, whether or not it has to be made first. -/
theorem procFillCache_hands {L : PidLimit} (env : Env L)
    {instantiate : Dir.St → Dir.Lookup × Dir.St} (hkeeps : Dir.KeepsNone instantiate)
    (entry : Dirent) (st : St) : Hands entry st (procFillCache env entry instantiate st) where
  clock := Nat.lt_succ_of_le
    (Dir.fillChild_frame env.toCacheEnv hkeeps ⟨st.clock, st.fPos, 0, []⟩).clock
  fPos := rfl
  accepted_eq := by
    have hnone : accepted (fillChild env instantiate st).trace = accepted st.trace := by
      simp [fillChild, accepted_taskActs]
    rw [procFillCache, log_trace, tick_trace, accepted_append, hnone]
    dsimp only
    split
    · next hret => rw [accepted_fill_of_neg hret, accepted_nil]
    · next hret => rw [accepted_fill_of_not_neg hret, accepted_nil]

section

variable {L : PidLimit} (env : Env L)

theorem procBaseFillCache_hands (reaper : TaskPtr) (name : String) (st : St) :
    Hands (.base name) st (procBaseFillCache env reaper name st) :=
  procFillCache_hands env (Dir.procBaseInstantiate_keepsNone env.toTaskEnv reaper _) _ st

theorem procPidFillCache_hands (tgid : ℕ) (task : TaskPtr) (st : St) :
    Hands (.process tgid) st (procPidFillCache env tgid task st) :=
  procFillCache_hands env (Dir.pidInstantiate_keepsNone env.toTaskEnv _ _ task) _ st

/-- A fixed entry is made without a task. -/
theorem procBaseFillCache_trace (reaper : TaskPtr) (name : String) (st : St) :
    (procBaseFillCache env reaper name st).2.trace =
      st.trace ++ [.fill (.base name) (procBaseFillCache env reaper name st).1] := by
  have hmade : ∀ st', (Dir.procBaseInstantiate env.toTaskEnv reaper (Dir.lnk name) st').2.trace =
      st'.trace := by
    intro st'
    obtain ⟨t, -, hst'⟩ := Dir.procBaseInstantiate_snd env.toTaskEnv reaper (Dir.lnk name) st'
    rw [hst']
  have hchild : (fillChild env (Dir.procBaseInstantiate env.toTaskEnv reaper (Dir.lnk name))
      st).trace = st.trace := by
    unfold fillChild Dir.fillChild
    dsimp only
    split
    · simp [taskActs]
    · split
      · rw [hmade]
        simp [taskActs]
      · simp [taskActs]
  rw [procBaseFillCache, procFillCache, log_trace, tick_trace, hchild]

/-- **The entry of a process is made with the task at its pid**, if it has to be made:
a reference to that task is taken and dropped before `filldir` is called. -/
theorem procPidFillCache_trace (tgid : ℕ) (task : TaskPtr) (st : St) :
    (procPidFillCache env tgid task st).2.trace =
        st.trace ++ [.fill (.process tgid) (procPidFillCache env tgid task st).1] ∨
      ∃ x, (procPidFillCache env tgid task st).2.trace =
          st.trace ++ [.get x, .put x, .fill (.process tgid) (procPidFillCache env tgid task st).1] ∧
        Dir.AtPidOf env.toTaskEnv st.clock (procPidFillCache env tgid task st).2.clock task x := by
  rw [procPidFillCache, procFillCache, log_trace, tick_trace, log_clock, tick_clock]
  unfold fillChild Dir.fillChild
  dsimp only
  split
  · left
    simp [taskActs]
  · split
    · generalize hstart : Dir.St.tick (Dir.St.tick ⟨st.clock, st.fPos, 0, []⟩) = start
      have htrace : start.trace = [] := by rw [← hstart]; rfl
      have hclock : start.clock = st.clock + 2 := by rw [← hstart]; rfl
      rcases Dir.pidInstantiate_trace env.toTaskEnv Dir.openDir
          (some (2 + Dir.pidEntryCountDirs (Dir.tgidBaseStuff env.config))) task start with
        hnone | ⟨x, hx, t, t', pid, ht, htt', ht', hpid, hfound⟩
      · left
        rw [Dir.procPidInstantiate, hnone, htrace]
        simp [taskActs]
      · right
        refine ⟨x, ?_, t, t', pid, by omega, htt', Nat.lt_succ_of_lt ht', hpid, hfound⟩
        rw [Dir.procPidInstantiate, hx, htrace]
        simp [taskActs]
    · left
      simp [taskActs]

end

/-! ### What a pass and a call can do -/

section

variable {L : PidLimit} {env : Env L} {hook : NormalHook} {inner fuel : ℕ} {iter : TgidIter}
  {st st' : St} {out : Outcome}

/-- The hook has been called for the process of `iter`. -/
def hooked (iter : TgidIter) (st : St) : St :=
  ({ st with fPos := u32 (iter.tgid + tgidOffset) } : St).log (.hook iter)

/-- The entry of the process is filled then. -/
def asked (env : Env L) (iter : TgidIter) (task : TaskPtr) (st : St) : ℤ × St :=
  procPidFillCache env iter.tgid task (hooked iter st).tick

/-- The frame the hook is called with. -/
def hookFrame (env : Env L) (st : St) : HookFrame :=
  ⟨env.current st.clock, env.tasks st.clock, env.arg st.clock⟩

theorem asked_hands (env : Env L) (iter : TgidIter) (task : TaskPtr) (st : St) :
    Hands (.process iter.tgid) (hooked iter st).tick (asked env iter task st) :=
  procPidFillCache_hands env iter.tgid task _

theorem asked_clock (env : Env L) (iter : TgidIter) (task : TaskPtr) (st : St) :
    st.clock ≤ (asked env iter task st).2.clock :=
  (Nat.le_succ _).trans (asked_hands env iter task st).clock.le

theorem accepted_asked (env : Env L) (iter : TgidIter) (task : TaskPtr) (st : St) :
    accepted (asked env iter task st).2.trace = accepted st.trace ++
      if (asked env iter task st).1 < 0 then [] else [.process iter.tgid] := by
  rw [(asked_hands env iter task st).accepted_eq]
  simp [hooked]

/-- A pass of the loop over the processes with a task at hand. -/
theorem scanLoop_succ {task : TaskPtr} (htask : iter.task = some task) :
    scanLoop env hook inner (fuel + 1) iter st =
      if (hook.body (hookFrame env st)).isSome then
        if (asked env iter task st).1 < 0 then
          some (.returned ((asked env iter task st).2.log (.put task)))
        else
          (nextTgid env inner ⟨u32 (iter.tgid + 1), iter.task⟩ (asked env iter task st).2).bind
            fun r => scanLoop env hook inner fuel r.1 r.2
      else some (.oops (hooked iter st)) := by
  rw [scanLoop]
  simp only [htask]
  rw [hookFrame, asked, hooked]
  cases hook.body ⟨env.current st.clock, env.tasks st.clock, env.arg st.clock⟩ with
  | none => rfl
  | some ret =>
    simp only [Option.isSome_some, if_true]
    refine ite_congr rfl (fun _ => rfl) fun _ => ?_
    generalize nextTgid env inner ⟨u32 (iter.tgid + 1), some task⟩ _ = next
    cases next <;> rfl

/-- The fixed entries that are still to be listed at the position of `st`. -/
def baseLeft (st : St) : List String := procBaseStuff.drop (u32 (st.fPos - firstProcessEntry))

/-- A call that returns, one constructor for each way through it. -/
inductive Called (env : Env L) (fuel : ℕ) (hook : NormalHook) (st : St) : St → Prop
  | noTask (hreaper : env.reaper st.clock = none) : Called env fuel hook st st.tick
  | refused (reaper : TaskPtr) (st₁ : St) (hreaper : env.reaper st.clock = some reaper)
      (hbase : baseLoop env reaper (baseLeft st) (st.tick.log (.get reaper)) = (false, st₁)) :
      Called env fuel hook st (st₁.log (.put reaper))
  | scanned (reaper : TaskPtr) (iter : TgidIter) (st₁ st₂ st₃ : St)
      (hreaper : env.reaper st.clock = some reaper)
      (hbase : baseLoop env reaper (baseLeft st) (st.tick.log (.get reaper)) = (true, st₁))
      (hnext : nextTgid env fuel ⟨u32 (st₁.fPos - tgidOffset), none⟩ st₁ = some (iter, st₂))
      (hscan : scanLoop env hook fuel fuel iter st₂ = some (.returned st₃)) :
      Called env fuel hook st (st₃.log (.put reaper))

/-- **Everything a call that returns can have done.** -/
theorem call_eq_some_iff : call env fuel st hook = some st' ↔ Called env fuel hook st st' := by
  have hleft : procBaseStuff.drop (u32 (st.fPos - firstProcessEntry)) = baseLeft st := rfl
  unfold call procPidReaddir
  dsimp only
  rw [hleft]
  constructor
  · intro h
    cases hreaper : env.reaper st.clock with
    | none =>
      rw [hreaper] at h
      exact Option.some.inj h ▸ .noTask hreaper
    | some reaper =>
      rcases hbase : baseLoop env reaper (baseLeft st) (st.tick.log (.get reaper)) with ⟨_ | _, st₁⟩
      · simp only [hreaper, hbase] at h
        exact Option.some.inj h ▸ .refused reaper st₁ hreaper hbase
      · rcases hnext : nextTgid env fuel ⟨u32 (st₁.fPos - tgidOffset), none⟩ st₁ with
          _ | ⟨iter, st₂⟩
        · simp only [hreaper, hbase, hnext] at h
          cases h
        · rcases hscan : scanLoop env hook fuel fuel iter st₂ with _ | st₃ | st₃
          · simp only [hreaper, hbase, hnext, hscan] at h
            cases h
          · simp only [hreaper, hbase, hnext, hscan] at h
            exact Option.some.inj h ▸ .scanned reaper iter st₁ st₂ st₃ hreaper hbase hnext hscan
          · simp only [hreaper, hbase, hnext, hscan] at h
            cases h
  · intro h
    cases h with
    | noTask hreaper => rw [hreaper]
    | refused reaper st₁ hreaper hbase => simp only [hreaper, hbase]
    | scanned reaper iter st₁ st₂ st₃ hreaper hbase hnext hscan =>
      simp only [hreaper, hbase, hnext, hscan]

end

end Proc
end KernelStudy
