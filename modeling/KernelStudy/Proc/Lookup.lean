import KernelStudy.Proc.Entries
import KernelStudy.Proc.Hiding

/-!
# Looking up processes and threads

A path like `/proc/4232/task/4233` is resolved name by name.  `proc_pid_lookup` finds
`self` and the processes, `proc_task_lookup` the threads of one process.  They ask
for a task with the number, and not whether a listing would show it.

## Main definitions

* `NsEnv` — what the code finds at each moment.
* `procPidLookup`, `procTaskLookup` — the code.

## Main results

* `pid_lookup`, `task_lookup` — **which names are found.**
* `lookup_references` — **no lookup keeps a reference.**
* `listed_and_found` — **every task is found under `/proc`, and the leaders among
  them are listed**, whatever hook is installed.
-/

namespace KernelStudy
namespace Proc
namespace Dir

/-! ### The code -/

/-- What the code finds at each moment. -/
structure NsEnv extends CacheEnv where
  /-- `find_task_by_pid_ns`, for the namespace of the file system. -/
  findTask : ℕ → ℤ → Option TaskPtr
  /-- `same_thread_group`. -/
  sameThreadGroup : ℕ → TaskPtr → TaskPtr → Bool
  /-- The configuration of the kernel. -/
  config : Config
  /-- The numbers of tasks are positive. -/
  findTask_pos : ∀ t n task, findTask t n = some task → 0 < n

/-- `proc_base_stuff`. -/
def procBaseEntries : List PidEntry := procBaseStuff.map lnk

section

variable (env : NsEnv)

/-- `proc_base_lookup`. -/
def procBaseLookup (pid : PidPtr) (name : List UInt8) (st : St) : Lookup × St :=
  match getProcTask env.toTaskEnv pid st with
  | (none, st) => (.error enoent, st)
  | (some task, st) =>
      match procBaseEntries.find? (fun p => p.name == name) with
      | none => (.error enoent, st.log (.put (.task task)))
      | some p =>
          let r := procBaseInstantiate env.toTaskEnv task p st
          (r.1, r.2.log (.put (.task task)))

/-- `proc_pid_lookup`. -/
def procPidLookup (pid : PidPtr) (name : List UInt8) (st : St) : Lookup × St :=
  match procBaseLookup env pid name st with
  | (.ok inode, st) => (.ok inode, st)
  | (.error e, st) =>
      -- only what is not in the table may be a number
      if e ≠ enoent then (.error e, st)
      else
        let tgid := nameToInt name
        if tgid = noInt then (.error e, st)
        else
          match env.findTask st.clock (s32 tgid) with
          | none => (.error e, st.tick)
          | some task =>
              let r := procPidInstantiate env.toTaskEnv env.config task
                (st.tick.log (.get (.task task)))
              (r.1, r.2.log (.put (.task task)))

/-- `proc_task_lookup`. -/
def procTaskLookup (pid : PidPtr) (name : List UInt8) (st : St) : Lookup × St :=
  match getProcTask env.toTaskEnv pid st with
  | (none, st) => (.error enoent, st)
  | (some leader, st) =>
      let tid := nameToInt name
      if tid = noInt then (.error enoent, st.log (.put (.task leader)))
      else
        match env.findTask st.clock (s32 tid) with
        | none => (.error enoent, st.tick.log (.put (.task leader)))
        | some task =>
            let st := st.tick.log (.get (.task task))
            -- the task may be one of another process
            if env.sameThreadGroup st.clock leader task then
              let r := procTaskInstantiate env.toTaskEnv env.config task st.tick
              (r.1, (r.2.log (.put (.task task))).log (.put (.task leader)))
            else (.error enoent, (st.tick.log (.put (.task task))).log (.put (.task leader)))

end

/-! ### References -/

variable {env : NsEnv} {pid : PidPtr} {name : List UInt8} {st : St} {held : Multiset Thing}
  {inode : Inode} {task : TaskPtr}

theorem procBaseLookup_owes (env : NsEnv) (h : Owes st held) (pid : PidPtr) (name : List UInt8) :
    Owes (procBaseLookup env pid name st).2 held := by
  have hget := getProcTask_owes env.toTaskEnv h pid
  unfold procBaseLookup
  split
  · next st₁ heq =>
    rw [heq] at hget
    exact hget
  · next task st₁ heq =>
    rw [heq] at hget
    split
    · exact hget.put
    · exact ((procBaseInstantiate_keepsNone env.toTaskEnv task _).owes _ _ hget).put

theorem procPidLookup_owes (env : NsEnv) (h : Owes st held) (pid : PidPtr) (name : List UInt8) :
    Owes (procPidLookup env pid name st).2 held := by
  have hbase := procBaseLookup_owes env h pid name
  unfold procPidLookup
  split
  · next inode st₁ heq =>
    rw [heq] at hbase
    exact hbase
  · next e st₁ heq =>
    rw [heq] at hbase
    split
    · exact hbase
    · dsimp only
      split
      · exact hbase
      · split
        · exact hbase.tick
        · exact ((pidInstantiate_keepsNone env.toTaskEnv _ _ _).owes _ _ (hbase.tick.get _)).put

theorem procTaskLookup_owes (env : NsEnv) (h : Owes st held) (pid : PidPtr) (name : List UInt8) :
    Owes (procTaskLookup env pid name st).2 held := by
  have hget := getProcTask_owes env.toTaskEnv h pid
  unfold procTaskLookup
  split
  · next st₁ heq =>
    rw [heq] at hget
    exact hget
  · next leader st₁ heq =>
    rw [heq] at hget
    dsimp only
    split
    · exact hget.put
    · split
      · exact hget.tick.put
      · split
        · exact ((pidInstantiate_keepsNone env.toTaskEnv _ _ _).owes _ _
            (hget.tick.get _).tick).put.put
        · exact (hget.tick.get _).tick.put.put

/-- What is looked up, listed or validated below `/proc`. -/
inductive NameOp where
  /-- A name in `/proc`. -/
  | pid (dir : PidPtr) (name : List UInt8)
  /-- A name in `/proc/<pid>/task`. -/
  | task (dir : PidPtr) (name : List UInt8)
  /-- A name in a directory with a table. -/
  | entry (ents : List PidEntry) (dir : PidPtr) (name : List UInt8)
  /-- A directory with a table is listed. -/
  | list (filldir : ℕ → ℤ) (ents : List PidEntry) (dir : PidPtr)
  /-- A name that is cached is used again. -/
  | revalidate (inode : Inode)

/-- What an operation does. -/
def nameStep (env : NsEnv) (st : St) : NameOp → Option St
  | .pid dir name => some (procPidLookup env dir name st).2
  | .task dir name => some (procTaskLookup env dir name st).2
  | .entry ents dir name => some (procPidentLookup env.toTaskEnv ents dir name st).2
  | .list filldir ents dir => some (procPidentReaddir env.toCacheEnv filldir ents dir st).2
  | .revalidate inode => some (pidRevalidate env.toTaskEnv inode st).2

/-- **No lookup keeps a reference**, and none drops one that it has not taken, in
whatever order they come and whatever happens to the tasks meanwhile. -/
theorem lookup_references (env : NsEnv) (ops : List NameOp) :
    ∃ st, run (nameStep env) start ops = some st ∧ Owes st 0 := by
  refine run_total (P := fun _ => True) ?_ ops start owes_start fun _ _ => trivial
  intro st op h _
  cases op with
  | pid dir name => exact ⟨_, rfl, procPidLookup_owes env h dir name⟩
  | task dir name => exact ⟨_, rfl, procTaskLookup_owes env h dir name⟩
  | entry ents dir name => exact ⟨_, rfl, procPidentLookup_owes env.toTaskEnv h ents dir name⟩
  | list filldir ents dir =>
    exact ⟨_, rfl, procPidentReaddir_owes env.toCacheEnv h filldir ents dir⟩
  | revalidate inode => exact ⟨_, rfl, pidRevalidate_owes env.toTaskEnv h inode⟩

/-! ### The root -/

/-- Nothing but `self` is found in the table of the root. -/
theorem find_procBaseEntries (name : List UInt8) :
    procBaseEntries.find? (fun p => p.name == name) =
      if name = bytes "self" then some (lnk "self") else none := by
  have hents : procBaseEntries = [lnk "self"] := rfl
  by_cases h : name = bytes "self"
  · rw [if_pos h, h]
    simp [hents, lnk]
  · have hne : ((lnk "self").name == name) = false := by
      simpa [lnk] using fun heq => h heq.symm
    simp [hents, hne, h]

theorem procBaseLookup_clock (env : NsEnv) (pid : PidPtr) (name : List UInt8) (st : St) :
    st.clock ≤ (procBaseLookup env pid name st).2.clock := by
  have hclock := getProcTask_clock env.toTaskEnv pid st
  unfold procBaseLookup
  split
  · next st₁ heq =>
    rw [heq] at hclock
    dsimp only at hclock ⊢
    omega
  · next task st₁ heq =>
    rw [heq] at hclock
    dsimp only at hclock
    split
    · show st.clock ≤ st₁.clock
      omega
    · next p hp =>
      have hmake := ((procBaseInstantiate_keepsNone env.toTaskEnv task p).frame st₁).clock
      show st.clock ≤ (procBaseInstantiate env.toTaskEnv task p st₁).2.clock
      omega

theorem procBaseLookup_ok (h : (procBaseLookup env pid name st).1 = .ok inode) :
    name = bytes "self" ∧ inode.mode = sIflnk ||| sIrwxugo := by
  unfold procBaseLookup at h
  split at h
  · cases h
  · rw [find_procBaseEntries] at h
    split at h
    · cases h
    · next p hp =>
      split at hp
      · next hname =>
        refine ⟨hname, ?_⟩
        cases hp
        unfold procBaseInstantiate at h
        split at h
        · cases h
        · dsimp only at h
          split at h
          · cases h
          · cases h
            rfl
      · cases hp

theorem procBaseLookup_of_ne (h : name ≠ bytes "self") (env : NsEnv) (pid : PidPtr) (st : St) :
    (procBaseLookup env pid name st).1 = .error enoent := by
  unfold procBaseLookup
  split
  · rfl
  · rw [find_procBaseEntries, if_neg h]

/-- A name that is read as the number of a task is that number. -/
theorem natText_of_findTask {t : ℕ} (hne : name ≠ []) (hint : nameToInt name ≠ noInt)
    (htask : env.findTask t (s32 (nameToInt name)) = some task) :
    name = natText (nameToInt name) ∧ s32 (nameToInt name) = nameToInt name := by
  obtain ⟨hname, hmax⟩ := natText_nameToInt hne hint
  refine ⟨hname, ?_⟩
  have hpos := env.findTask_pos t _ task htask
  unfold s32 maxName at *
  omega

theorem openDir_and : openDir &&& ~~~ sIsugid = openDir := by decide

/-- The inode of the directory of a task: everybody may read it, and it belongs to the
effective user of the task that has its pid. -/
def DirOf (env : NsEnv) (lo hi : ℕ) (inode : Inode) : Prop :=
  inode.mode = openDir ∧ ∃ t task, lo ≤ t ∧ t + 2 ≤ hi ∧ env.pidTask t inode.pid = some task ∧
    inode.uid = env.euid (t + 2) task ∧ inode.gid = env.egid (t + 2) task

/-- What `proc_pid_instantiate` and `proc_task_instantiate` make. -/
theorem dirOf_of_pidInstantiate {nlink : Option ℕ}
    (h : (pidInstantiate env.toTaskEnv openDir nlink task st).1 = .ok inode) :
    DirOf env st.clock (pidInstantiate env.toTaskEnv openDir nlink task st).2.clock inode ∧
      env.taskPid (st.clock + 1) task = some inode.pid := by
  obtain ⟨t, task', hle, hlt, hpid, htask, howner, hmode⟩ := pidInstantiate_made h
  rw [openDir_and] at hmode
  rw [ownerAt, if_pos (Or.inl rfl), Prod.mk.injEq] at howner
  exact ⟨⟨hmode, t, task', hle, by omega, htask, howner.1, howner.2⟩, hpid⟩

theorem DirOf.widen {a b a' b' : ℕ} (h : DirOf env a b inode) (ha : a' ≤ a) (hb : b ≤ b') :
    DirOf env a' b' inode := by
  obtain ⟨hmode, t, task, h₁, h₂, hrest⟩ := h
  exact ⟨hmode, t, task, by omega, by omega, hrest⟩

/-- `self` is no number. -/
theorem natText_ne_self {nr : ℕ} (hnr : nr < 2 ^ 31) : natText nr ≠ bytes "self" := by
  intro heq
  have hint : nameToInt (natText nr) = nr := nameToInt_natText (by unfold maxName; omega)
  have hread : nameToInt (bytes "self") = noInt := by decide
  rw [← heq, hint] at hread
  unfold noInt at hread
  omega

/-- A name that is found is `self` or the number of a task. -/
theorem procPidLookup_sound (hne : name ≠ [])
    (h : (procPidLookup env pid name st).1 = .ok inode) :
    (name = bytes "self" ∧ inode.mode = sIflnk ||| sIrwxugo) ∨
      ∃ (nr t : ℕ) (task : TaskPtr), name = natText nr ∧ st.clock ≤ t ∧
        env.findTask t nr = some task ∧ env.taskPid (t + 2) task = some inode.pid ∧
        DirOf env t (procPidLookup env pid name st).2.clock inode := by
  have hclock := procBaseLookup_clock env pid name st
  have hbase : ∀ inode, (procBaseLookup env pid name st).1 = .ok inode →
      name = bytes "self" ∧ inode.mode = sIflnk ||| sIrwxugo := fun _ => procBaseLookup_ok
  unfold procPidLookup at h ⊢
  generalize procBaseLookup env pid name st = r at hclock hbase h ⊢
  rcases r with ⟨e | made, st₁⟩
  · right
    dsimp only at h hclock ⊢
    split at h
    · cases h
    · next he =>
      split at h
      · cases h
      · next hint =>
        split at h
        · cases h
        · next task htask =>
          obtain ⟨hname, hnr⟩ := natText_of_findTask hne hint htask
          rw [hnr] at htask
          obtain ⟨hdir, hpid⟩ := dirOf_of_pidInstantiate h
          refine ⟨nameToInt name, st₁.clock, task, hname, hclock, htask, hpid, ?_⟩
          rw [if_neg he, if_neg hint]
          exact hdir.widen (Nat.le_succ _) le_rfl
  · cases h
    exact Or.inl (hbase inode rfl)

/-- The number of a task that stays there is found. -/
theorem procPidLookup_complete {nr : ℕ} {pid' : PidPtr} (hnr : nr < 2 ^ 31)
    (hfind : ∀ t, env.findTask t nr = some task) (hstays : TaskStays env.toTaskEnv pid' task)
    (hinodes : HasInodes env.toTaskEnv) (pid : PidPtr) (st : St) :
    ∃ inode, (procPidLookup env pid (natText nr) st).1 = .ok inode := by
  have hint : nameToInt (natText nr) = nr := nameToInt_natText (by unfold maxName; omega)
  have hbase := procBaseLookup_of_ne (natText_ne_self hnr) env pid st
  unfold procPidLookup
  generalize procBaseLookup env pid (natText nr) st = r at hbase ⊢
  rcases r with ⟨res, st₁⟩
  dsimp only at hbase
  subst hbase
  dsimp only
  rw [if_neg (fun h => h rfl), hint, if_neg (by unfold noInt; omega), s32_of_lt hnr, hfind]
  exact pidInstantiate_stays hstays hinodes _ _ _

/-- **Which names are found in `/proc`.**  A name that is found is `self`, or the number
of a task at a moment of the call, leader or not, and it leads to the directory of the
task; and the number of a task that stays there is found, if there is memory. -/
theorem pid_lookup (env : NsEnv) (pid : PidPtr) (name : List UInt8) (hne : name ≠ []) (st : St) :
    (∀ inode, (procPidLookup env pid name st).1 = .ok inode →
      (name = bytes "self" ∧ inode.mode = sIflnk ||| sIrwxugo) ∨
      ∃ (nr t : ℕ) (task : TaskPtr), name = natText nr ∧ st.clock ≤ t ∧
        env.findTask t nr = some task ∧ env.taskPid (t + 2) task = some inode.pid ∧
        DirOf env t (procPidLookup env pid name st).2.clock inode) ∧
    ∀ (nr : ℕ) (pid' : PidPtr) (task : TaskPtr), nr < 2 ^ 31 → name = natText nr →
      (∀ t, env.findTask t nr = some task) → TaskStays env.toTaskEnv pid' task →
      HasInodes env.toTaskEnv → ∃ inode, (procPidLookup env pid name st).1 = .ok inode := by
  refine ⟨fun _ h => procPidLookup_sound hne h, ?_⟩
  rintro nr pid' task hnr rfl hfind hstays hinodes
  exact procPidLookup_complete hnr hfind hstays hinodes pid st

/-- A process with its leader and one more thread. -/
def twoTasks : NsEnv where
  toCacheEnv :=
    { pidTask := fun _ pid => if pid = 1 ∨ pid = 2 then some pid else none
      taskPid := fun _ task => some task
      dumpable := fun _ _ => some 0
      euid := fun _ task => 1000 + task
      egid := fun _ _ => 100
      newInode := fun _ => some ⟨0, 1, 0, 0, 0, 0⟩
      dLookup := fun _ => false
      dAlloc := fun _ => true }
  findTask := fun _ n => if n = 1 ∨ n = 2 then some n.toNat else none
  sameThreadGroup := fun _ _ _ => true
  config := allOptions
  findTask_pos := by
    intro t n task h
    split at h
    · omega
    · cases h

theorem twoTasks_stays {task : TaskPtr} (h : task = 1 ∨ task = 2) :
    TaskStays twoTasks.toTaskEnv task task where
  task_eq := fun _ => if_pos h
  pid_eq := fun _ => rfl

theorem twoTasks_hasInodes : HasInodes twoTasks.toTaskEnv := fun _ => rfl

/-- Thread 2 is found in `/proc`. -/
theorem pid_lookup_of_thread :
    ∃ inode, (procPidLookup twoTasks 1 (natText 2) start).1 = .ok inode :=
  (pid_lookup twoTasks 1 (natText 2) (natText_ne_nil 2) start).2 2 2 2 (by decide) rfl
    (fun _ => rfl) (twoTasks_stays (Or.inr rfl)) twoTasks_hasInodes

/-- **Which names are found in `/proc/<pid>/task`**: the numbers of the tasks of the
thread group, if there is memory for the inode. -/
theorem task_lookup (env : NsEnv) (pid : PidPtr) (name : List UInt8) (hne : name ≠ []) (st : St) :
    (∀ inode, (procTaskLookup env pid name st).1 = .ok inode →
      ∃ (nr t : ℕ) (leader task : TaskPtr), name = natText nr ∧ st.clock ≤ t ∧
        env.pidTask st.clock pid = some leader ∧ env.findTask t nr = some task ∧
        env.sameThreadGroup (t + 1) leader task = true ∧
        env.taskPid (t + 3) task = some inode.pid ∧
        DirOf env t (procTaskLookup env pid name st).2.clock inode) ∧
    ∀ (nr : ℕ) (pid' : PidPtr) (leader task : TaskPtr), nr < 2 ^ 31 → name = natText nr →
      (∀ t, env.pidTask t pid = some leader) → (∀ t, env.findTask t nr = some task) →
      (∀ t, env.sameThreadGroup t leader task = true) → TaskStays env.toTaskEnv pid' task →
      HasInodes env.toTaskEnv → ∃ inode, (procTaskLookup env pid name st).1 = .ok inode := by
  have hget := getProcTask_fst env.toTaskEnv pid st
  constructor
  · intro inode h
    have hclock := getProcTask_clock env.toTaskEnv pid st
    unfold procTaskLookup at h ⊢
    generalize getProcTask env.toTaskEnv pid st = r at hget hclock h ⊢
    rcases r with ⟨_ | leader, st₁⟩
    · cases h
    · dsimp only at h hclock ⊢
      split at h
      · cases h
      · next hint =>
        split at h
        · cases h
        · next task htask =>
          split at h
          · next hsame =>
            obtain ⟨hname, hnr⟩ := natText_of_findTask hne hint htask
            rw [hnr] at htask
            obtain ⟨hdir, hpid⟩ := dirOf_of_pidInstantiate h
            refine ⟨nameToInt name, st₁.clock, leader, task, hname, by omega, hget.symm, htask,
              hsame, hpid, ?_⟩
            rw [if_neg hint, if_pos hsame]
            exact hdir.widen (Nat.le_add_right _ 2) le_rfl
          · cases h
  · rintro nr pid' leader task hlt rfl hleader hfind hsame hstays hinodes
    have hint : nameToInt (natText nr) = nr := nameToInt_natText (by unfold maxName; omega)
    unfold procTaskLookup
    rw [hleader] at hget
    generalize getProcTask env.toTaskEnv pid st = r at hget ⊢
    rcases r with ⟨found, st₁⟩
    dsimp only at hget
    subst hget
    dsimp only
    rw [hint, if_neg (by unfold noInt; omega), s32_of_lt hlt, hfind]
    dsimp only
    rw [if_pos (hsame _)]
    exact pidInstantiate_stays hstays hinodes _ _ _

/-- Thread 2 is found in the directory of its process. -/
theorem task_lookup_of_thread :
    ∃ inode, (procTaskLookup twoTasks 1 (natText 2) start).1 = .ok inode :=
  (task_lookup twoTasks 1 (natText 2) (natText_ne_nil 2) start).2 2 2 1 2 (by decide) rfl
    (fun _ => rfl) (fun _ => rfl) (fun _ => rfl) (twoTasks_stays (Or.inr rfl)) twoTasks_hasInodes

/-! ### Listing and looking up -/

variable {L : PidLimit} {ns : PidNamespace L} {tasks : TaskHeap} {current : TaskPtr}

/-- The lookups find the tasks of the namespace, which stay there, and memory for their
inodes. -/
structure Finds (look : NsEnv) (ns : PidNamespace L) : Prop where
  found : ∀ t (nr : ℕ), look.findTask t nr = if nr ∈ ns.pids then ns.pidTask nr else none
  stays : ∀ nr task, nr ∈ ns.pids → ns.pidTask nr = some task →
    ∃ pid, TaskStays look.toTaskEnv pid task
  inodes : HasInodes look.toTaskEnv

/-- A number is found exactly if there is a task with it. -/
theorem Finds.lookup_iff {look : NsEnv} (h : Finds look ns) (dir : PidPtr) (st : St) {nr : ℕ}
    (hnr : nr < 2 ^ 31) : (∃ inode, (procPidLookup look dir (natText nr) st).1 = .ok inode) ↔
      ∃ task, nr ∈ ns.pids ∧ ns.pidTask nr = some task := by
  constructor
  · rintro ⟨inode, hok⟩
    rcases procPidLookup_sound (natText_ne_nil nr) hok with
      ⟨hself, -⟩ | ⟨nr', t, task, hname, -, htask, -⟩
    · exact absurd hself (natText_ne_self hnr)
    · obtain rfl := natText_inj hname
      rw [h.found] at htask
      split at htask
      · next hmem => exact ⟨task, hmem, htask⟩
      · cases htask
  · rintro ⟨task, hmem, htask⟩
    obtain ⟨pid', hstays⟩ := h.stays nr task hmem htask
    refine procPidLookup_complete hnr ?_ hstays h.inodes dir st
    intro t
    rw [h.found, if_pos hmem]
    exact htask

/-- **Every task is found under `/proc`, and the leaders among them are listed**,
whatever hooks are called during the scan: so what can be reached without being listed
are the other threads, and no process is hidden from a lookup. -/
theorem listed_and_found {env : Env L} {look : NsEnv} (hfrozen : Frozen env ns tasks current)
    (hfinds : Finds look ns) {fuel : ℕ} {hooks : List NormalHook} {scan : Proc.St}
    (hr : run (call env fuel) Proc.start hooks = some scan)
    (hend : scan.fPos = L.value + tgidOffset) (dir : PidPtr) (st : St) (nr : ℕ)
    (hnr : nr < 2 ^ 31) :
    ((∃ inode, (procPidLookup look dir (natText nr) st).1 = .ok inode) ↔
      ∃ task, nr ∈ ns.pids ∧ ns.pidTask nr = some task) ∧
    (Dirent.process nr ∈ Proc.accepted scan.trace ↔
      ∃ task, nr ∈ ns.pids ∧ ns.pidTask nr = some task ∧ hasGroupLeaderPid (tasks task) = true) := by
  have hI : Resumable env scan := run_invariant resumable_call _ Proc.start scan resumable_start hr
  exact ⟨hfinds.lookup_iff dir st hnr, mem_accepted_iff hfrozen hI hend nr⟩

theorem twoTasks_finds : Finds twoTasks twoPids where
  found := by
    intro t nr
    have hmem : nr ∈ twoPids.pids ↔ nr = 1 ∨ nr = 2 := by simp [twoPids]
    have hint : ((nr : ℤ) = 1 ∨ (nr : ℤ) = 2) ↔ nr = 1 ∨ nr = 2 := by omega
    show (if (nr : ℤ) = 1 ∨ (nr : ℤ) = 2 then some (nr : ℤ).toNat else none) = _
    simp only [hint, hmem]
    rfl
  stays := by
    intro nr task hmem htask
    have hnr : nr = 1 ∨ nr = 2 := by simpa [twoPids] using hmem
    have heq : nr = task := Option.some.inj htask
    exact ⟨task, twoTasks_stays (heq ▸ hnr)⟩
  inodes := twoTasks_hasInodes

/-- Process 2, of another node than the caller, is found and listed, although the function
of `proc_hack.c` is called. -/
theorem other_node_found :
    (∃ inode, (procPidLookup twoTasks 1 (natText 2) start).1 = .ok inode) ∧
      ∃ scan, run (call (twoNodesEnv 1 2) 0x8001) Proc.start [ProcHack.hookAt 0x1000] = some scan ∧
        Dirent.process 2 ∈ Proc.accepted scan.trace := by
  have hrun : (run (call (twoNodesEnv 1 2) 0x8001) Proc.start [ProcHack.hookAt 0x1000]).map
      (fun st => st.fPos) = some ((0x8000 : ℤ) + tgidOffset) := by decide +kernel
  obtain ⟨scan, hr, hend⟩ := Option.map_eq_some_iff.mp hrun
  obtain ⟨hfound, hlisted⟩ := listed_and_found (frozen_twoNodesEnv 1 2) twoTasks_finds hr hend 1
    start 2 (by decide)
  exact ⟨hfound.mpr ⟨2, by decide, rfl⟩, scan, hr, hlisted.mpr ⟨2, by decide, rfl, by decide⟩⟩

end Dir
end Proc
end KernelStudy
