import KernelStudy.Proc.Dir

/-!
# The inodes of a process

Every path below `/proc/<pid>` has an inode that keeps the `struct pid` of its
task.  The inode is made when the name is looked up or listed first, and it is
validated again each time the name is used: the task may be gone, or run as
another user.  Making it ends with a validation, so a directory that is listed
looks for the task of each entry that is not cached yet.

## Main definitions

* `TaskEnv`, `CacheEnv` — what the code finds at each moment.
* `procPidMakeInode`, `pidRevalidate`, `procFillCache` — the code.
* `OwnedBy env task inode` — the inode belongs to root or to the task.
* `KeepsNone` — a function that makes an inode lists nothing and keeps no reference.

## Main results

* `pidRevalidate_valid`, `procPidMakeInode_made` — what the two functions give.
* `pidInstantiate_keepsNone` — making an inode keeps no reference.
* `pidInstantiate_trace` — **the one task that making an inode looks for.**
* `procFillCache_offers` — **an entry is offered once.**
-/

namespace KernelStudy
namespace Proc
namespace Dir

/-! ### Modes -/

/-- `S_IFDIR`. -/
def sIfdir : UInt16 := 0o040000

/-- `S_IFREG`. -/
def sIfreg : UInt16 := 0o100000

/-- `S_IFLNK`. -/
def sIflnk : UInt16 := 0o120000

/-- `S_ISUID | S_ISGID`. -/
def sIsugid : UInt16 := 0o6000

/-- `S_IRUGO`. -/
def sIrugo : UInt16 := 0o444

/-- `S_IWUGO`. -/
def sIwugo : UInt16 := 0o222

/-- `S_IXUGO`. -/
def sIxugo : UInt16 := 0o111

/-- `S_IRWXUGO`. -/
def sIrwxugo : UInt16 := 0o777

/-- `S_IRUSR`. -/
def sIrusr : UInt16 := 0o400

/-- `S_IWUSR`. -/
def sIwusr : UInt16 := 0o200

/-- `S_IXUSR`. -/
def sIxusr : UInt16 := 0o100

/-- The mode of the directories that everybody may read. -/
def openDir : UInt16 := sIfdir ||| sIrugo ||| sIxugo

/-- `S_ISDIR`. -/
def sIsdir (mode : UInt16) : Bool := mode &&& 0o170000 == sIfdir

/-! ### The code -/

/-- The address of a `struct pid`. -/
abbrev PidPtr := ℕ

/-- The fields of an inode in use here. -/
structure Inode where
  /-- `i_mode`. -/
  mode : UInt16
  /-- `i_nlink`. -/
  nlink : ℕ
  /-- `i_uid`. -/
  uid : ℕ
  /-- `i_gid`. -/
  gid : ℕ
  /-- `PROC_I(inode)->pid`. -/
  pid : PidPtr
  /-- `PROC_I(inode)->fd`. -/
  fd : ℕ

/-- What the code finds at each moment. -/
structure TaskEnv where
  /-- `get_pid_task`. -/
  pidTask : ℕ → PidPtr → Option TaskPtr
  /-- `get_task_pid`. -/
  taskPid : ℕ → TaskPtr → Option PidPtr
  /-- `get_dumpable` of the `mm` of a task, if it has one. -/
  dumpable : ℕ → TaskPtr → Option ℤ
  /-- `__task_cred(task)->euid`. -/
  euid : ℕ → TaskPtr → ℕ
  /-- `__task_cred(task)->egid`. -/
  egid : ℕ → TaskPtr → ℕ
  /-- The result of `new_inode`. -/
  newInode : ℕ → Option Inode

/-- What the code finds in the dentry cache, besides. -/
structure CacheEnv extends TaskEnv where
  /-- `d_lookup` finds the entry that is looked for at this moment. -/
  dLookup : ℕ → Bool
  /-- `d_alloc` succeeds. -/
  dAlloc : ℕ → Bool

section

variable (env : TaskEnv)

/-- `get_proc_task`. -/
def getProcTask (pid : PidPtr) (st : St) : Option TaskPtr × St :=
  match env.pidTask st.clock pid with
  | none => (none, st.tick)
  | some task => (some task, st.tick.log (.get (.task task)))

/-- `task_dumpable`. -/
def taskDumpable (t : ℕ) (task : TaskPtr) : Bool := env.dumpable t task == some 1

/-- The inode is given to the effective user of the task. -/
def giveTo (t : ℕ) (task : TaskPtr) (inode : Inode) : Inode :=
  { inode with uid := env.euid t task, gid := env.egid t task }

/-- `proc_pid_make_inode`. -/
def procPidMakeInode (task : TaskPtr) (st : St) : Option Inode × St :=
  match env.newInode st.clock with
  | none => (none, st.tick)
  | some inode =>
      let st := st.tick
      match env.taskPid st.clock task with
      -- the task is dead, and the inode is given up
      | none => (none, st.tick)
      | some pid =>
          let inode := { inode with pid := pid }
          let st := st.tick
          if taskDumpable env st.clock task then
            (some (giveTo env (st.clock + 1) task inode), st.tick.tick)
          else (some inode, st.tick)

/-- What a validation makes of the owner and the mode. -/
def refresh (all : Bool) (task : TaskPtr) (inode : Inode) (st : St) : Inode × St :=
  let inode' :=
    if all || taskDumpable env st.clock task then giveTo env (st.clock + 1) task inode
    else { inode with uid := 0, gid := 0 }
  ({ inode' with mode := inode'.mode &&& ~~~ sIsugid }, st.tick.tick)

/-- `pid_revalidate`: the inode, unless the dentry is dropped. -/
def pidRevalidate (inode : Inode) (st : St) : Option Inode × St :=
  match getProcTask env inode.pid st with
  | (none, st) => (none, st)
  | (some task, st) =>
      -- the directory of a task belongs to its user even if it is not dumpable
      let r := refresh env (inode.mode == openDir) task inode st
      (some r.1, r.2.log (.put (.task task)))

/-- What becomes of a name: an inode or an error. -/
abbrev Lookup := Except ℤ Inode

/-- The end of the functions that make an inode: it is validated at once, since the
process may have died meanwhile. -/
def closeRace (r : Option Inode × St) : Lookup × St :=
  match r with
  | (none, st) => (.error enoent, st)
  | (some inode, st) => (.ok inode, st)

/-- The functions that make the inode of a name and validate it: they differ in the
mode and the number of links they give it. -/
def pidInstantiate (mode : UInt16) (nlink : Option ℕ) (task : TaskPtr) (st : St) : Lookup × St :=
  match procPidMakeInode env task st with
  | (none, st) => (.error enoent, st)
  | (some inode, st) =>
      closeRace (pidRevalidate env { inode with mode := mode, nlink := nlink.getD inode.nlink } st)

end

/-- The first half of `proc_fill_cache`: an entry that is not cached yet is made. -/
def fillChild (env : CacheEnv) (instantiate : St → Lookup × St) (st : St) : St :=
  if env.dLookup st.clock then st.tick
  else if env.dAlloc (st.clock + 1) then (instantiate st.tick.tick).2
  else st.tick.tick

/-- `proc_fill_cache`. -/
def procFillCache (env : CacheEnv) (filldir : ℕ → ℤ) (instantiate : St → Lookup × St) (e : Entry)
    (st : St) : ℤ × St :=
  fill filldir e (fillChild env instantiate st)

/-! ### What the code gives -/

variable {env : TaskEnv} {task : TaskPtr} {pid : PidPtr} {inode inode' : Inode} {st st' : St}
  {held : Multiset Thing}

/-- Whom an inode with this mode belongs to when it is validated. -/
def ownerAt (env : TaskEnv) (t : ℕ) (mode : UInt16) (task : TaskPtr) : ℕ × ℕ :=
  if mode = openDir ∨ env.dumpable t task = some 1 then
    (env.euid (t + 1) task, env.egid (t + 1) task)
  else (0, 0)

theorem refresh_owner (env : TaskEnv) (task : TaskPtr) (inode : Inode) (st : St) :
    ((refresh env (inode.mode == openDir) task inode st).1.uid,
      (refresh env (inode.mode == openDir) task inode st).1.gid) =
      ownerAt env st.clock inode.mode task := by
  unfold refresh ownerAt
  dsimp only
  by_cases h : inode.mode = openDir ∨ env.dumpable st.clock task = some 1
  · have hall : (inode.mode == openDir || taskDumpable env st.clock task) = true := by
      simpa [taskDumpable] using h
    rw [if_pos h, if_pos hall]
    rfl
  · have hall : ¬ (inode.mode == openDir || taskDumpable env st.clock task) = true := by
      simpa [taskDumpable] using h
    rw [if_neg h, if_neg hall]

/-- What a validation leaves alone. -/
theorem refresh_frame (env : TaskEnv) (all : Bool) (task : TaskPtr) (inode : Inode) (st : St) :
    (refresh env all task inode st).1.mode = inode.mode &&& ~~~ sIsugid ∧
      (refresh env all task inode st).1.nlink = inode.nlink ∧
      (refresh env all task inode st).1.pid = inode.pid ∧
      (refresh env all task inode st).1.fd = inode.fd := by
  unfold refresh
  dsimp only
  split
  · exact ⟨rfl, rfl, rfl, rfl⟩
  · exact ⟨rfl, rfl, rfl, rfl⟩

theorem getProcTask_fst (env : TaskEnv) (pid : PidPtr) (st : St) :
    (getProcTask env pid st).1 = env.pidTask st.clock pid := by
  unfold getProcTask
  split
  · next h => exact h.symm
  · next h => exact h.symm

theorem getProcTask_owes (env : TaskEnv) (h : Owes st held) (pid : PidPtr) :
    Owes (getProcTask env pid st).2 (holding ((getProcTask env pid st).1.map .task) held) := by
  unfold getProcTask
  split
  · exact h.tick
  · exact h.tick.get _

theorem getProcTask_clock (env : TaskEnv) (pid : PidPtr) (st : St) :
    (getProcTask env pid st).2.clock = st.clock + 1 := by
  unfold getProcTask
  split
  · rfl
  · rfl

theorem getProcTask_frame (env : TaskEnv) (pid : PidPtr) (st : St) :
    Frame st (getProcTask env pid st).2 := by
  unfold getProcTask
  split
  · exact (Frame.refl st).tick
  · exact (Frame.refl st).tick.get _

/-- Making an inode takes time, and no reference to the task. -/
theorem procPidMakeInode_snd (env : TaskEnv) (task : TaskPtr) (st : St) :
    ∃ t, st.clock ≤ t ∧ (procPidMakeInode env task st).2 = { st with clock := t } := by
  unfold procPidMakeInode
  split
  · exact ⟨_, Nat.le_succ _, rfl⟩
  · dsimp only
    split
    · exact ⟨_, Nat.le_add_right _ 2, rfl⟩
    · split
      · exact ⟨_, Nat.le_add_right _ 4, rfl⟩
      · exact ⟨_, Nat.le_add_right _ 3, rfl⟩

theorem procPidMakeInode_frame (env : TaskEnv) (task : TaskPtr) (st : St) :
    Frame st (procPidMakeInode env task st).2 := by
  obtain ⟨t, ht, hst⟩ := procPidMakeInode_snd env task st
  rw [hst]
  exact ⟨ht, rfl, rfl, rfl, rfl⟩

theorem procPidMakeInode_owes (env : TaskEnv) (h : Owes st held) (task : TaskPtr) :
    Owes (procPidMakeInode env task st).2 held := by
  obtain ⟨t, -, hst⟩ := procPidMakeInode_snd env task st
  rw [hst]
  exact h

/-- A validation looks for the task of the inode, and drops it again. -/
theorem pidRevalidate_snd (env : TaskEnv) (inode : Inode) (st : St) :
    (pidRevalidate env inode st).2 =
      match env.pidTask st.clock inode.pid with
      | none => st.tick
      | some x => ((st.tick.log (.get (.task x))).tick.tick).log (.put (.task x)) := by
  unfold pidRevalidate getProcTask
  cases env.pidTask st.clock inode.pid with
  | none => rfl
  | some x => rfl

theorem pidRevalidate_frame (env : TaskEnv) (inode : Inode) (st : St) :
    Frame st (pidRevalidate env inode st).2 := by
  rw [pidRevalidate_snd]
  cases env.pidTask st.clock inode.pid with
  | none => exact (Frame.refl st).tick
  | some x => exact ((Frame.refl st).tick.get _).tick.tick.put _

theorem pidRevalidate_owes (env : TaskEnv) (h : Owes st held) (inode : Inode) :
    Owes (pidRevalidate env inode st).2 held := by
  rw [pidRevalidate_snd]
  cases env.pidTask st.clock inode.pid with
  | none => exact h.tick
  | some x => exact (h.tick.get _).tick.tick.put

theorem closeRace_snd (r : Option Inode × St) : (closeRace r).2 = r.2 := by
  unfold closeRace
  split
  · rfl
  · rfl

theorem closeRace_eq_ok_iff {r : Option Inode × St} :
    (closeRace r).1 = .ok inode ↔ r.1 = some inode := by
  rcases r with ⟨found, st⟩
  cases found with
  | none => simp [closeRace]
  | some inode' => simp [closeRace]

/-- **What a valid entry is**: the task is there, and the owner is that of the
moment. -/
theorem pidRevalidate_valid (h : (pidRevalidate env inode st).1 = some inode') :
    ∃ task, env.pidTask st.clock inode.pid = some task ∧
      (inode'.uid, inode'.gid) = ownerAt env (st.clock + 1) inode.mode task ∧
      inode'.mode = inode.mode &&& ~~~ sIsugid ∧ inode'.nlink = inode.nlink ∧
      inode'.pid = inode.pid ∧ st.clock + 1 < (pidRevalidate env inode st).2.clock := by
  have htask := getProcTask_fst env inode.pid st
  have hclock := getProcTask_clock env inode.pid st
  unfold pidRevalidate at h ⊢
  split at h
  · cases h
  · next task st₁ heq =>
    rw [heq] at htask hclock
    rw [Option.some.injEq] at h
    obtain ⟨hmode, hnlink, hpid, -⟩ :=
      refresh_frame env (inode.mode == openDir) task inode st₁
    have howner := refresh_owner env task inode st₁
    rw [h] at hmode hnlink hpid howner
    dsimp only at hclock
    rw [hclock] at howner
    refine ⟨task, htask.symm, howner, hmode, hnlink, hpid, ?_⟩
    show st.clock + 1 < st₁.clock + 2
    omega

/-- The entry of a task that is there is validated. -/
theorem pidRevalidate_some (htask : env.pidTask st.clock inode.pid = some task) :
    ∃ inode', (pidRevalidate env inode st).1 = some inode' := by
  unfold pidRevalidate getProcTask
  rw [htask]
  exact ⟨_, rfl⟩

/-! ### Making an inode -/

theorem procPidMakeInode_made (h : (procPidMakeInode env task st).1 = some inode) :
    env.taskPid (st.clock + 1) task = some inode.pid ∧
      st.clock + 1 < (procPidMakeInode env task st).2.clock := by
  unfold procPidMakeInode at h ⊢
  split at h
  · cases h
  · dsimp only at h ⊢
    split at h
    · cases h
    · next pid hpid =>
      split at h
      · next hdumpable =>
        rw [if_pos hdumpable, ← Option.some.inj h]
        exact ⟨hpid, Nat.lt_add_of_pos_right (by decide : 0 < 3)⟩
      · next hdumpable =>
        rw [if_neg hdumpable, ← Option.some.inj h]
        exact ⟨hpid, Nat.lt_add_of_pos_right (by decide : 0 < 2)⟩

/-- A function that makes an inode lists nothing and keeps no reference. -/
structure KeepsNone (instantiate : St → Lookup × St) : Prop where
  frame : ∀ st, Frame st (instantiate st).2
  owes : ∀ st held, Owes st held → Owes (instantiate st).2 held

theorem pidInstantiate_keepsNone (env : TaskEnv) (mode : UInt16) (nlink : Option ℕ)
    (task : TaskPtr) : KeepsNone (pidInstantiate env mode nlink task) where
  frame := by
    intro st
    have hmake := procPidMakeInode_frame env task st
    unfold pidInstantiate
    split
    · next st₁ heq =>
      rw [heq] at hmake
      exact hmake
    · next inode st₁ heq =>
      rw [heq] at hmake
      rw [closeRace_snd]
      exact hmake.trans (pidRevalidate_frame env _ st₁)
  owes := by
    intro st held h
    have hmake := procPidMakeInode_owes env h task
    unfold pidInstantiate
    split
    · next st₁ heq =>
      rw [heq] at hmake
      exact hmake
    · next inode st₁ heq =>
      rw [heq] at hmake
      rw [closeRace_snd]
      exact pidRevalidate_owes env hmake _

/-- At moments from `lo` on and before `hi` the pid of the task is taken, and then
`x` is found at that pid. -/
def AtPidOf (env : TaskEnv) (lo hi : ℕ) (task x : TaskPtr) : Prop :=
  ∃ t t' pid, lo ≤ t ∧ t < t' ∧ t' < hi ∧ env.taskPid t task = some pid ∧
    env.pidTask t' pid = some x

/-- **The one task that making an inode looks for** is that at the pid of the task it
is made for.  It need not be this task: a thread that executes a program takes over
the pid of its leader. -/
theorem pidInstantiate_trace (env : TaskEnv) (mode : UInt16) (nlink : Option ℕ) (task : TaskPtr)
    (st : St) : (pidInstantiate env mode nlink task st).2.trace = st.trace ∨
      ∃ x, (pidInstantiate env mode nlink task st).2.trace =
          st.trace ++ [.get (.task x), .put (.task x)] ∧
        AtPidOf env st.clock (pidInstantiate env mode nlink task st).2.clock task x := by
  obtain ⟨t, -, hst⟩ := procPidMakeInode_snd env task st
  have hmade : ∀ made, (procPidMakeInode env task st).1 = some made →
      env.taskPid (st.clock + 1) task = some made.pid ∧
        st.clock + 1 < (procPidMakeInode env task st).2.clock :=
    fun _ h => procPidMakeInode_made h
  unfold pidInstantiate
  split
  · next st₁ heq =>
    rw [heq] at hst
    dsimp only at hst
    left
    rw [hst]
  · next made st₁ heq =>
    rw [heq] at hst hmade
    dsimp only at hst hmade
    obtain ⟨hpid, hclock⟩ := hmade made rfl
    rw [closeRace_snd, pidRevalidate_snd]
    cases hx : env.pidTask st₁.clock made.pid with
    | none =>
      left
      rw [hst]
      rfl
    | some x =>
      right
      refine ⟨x, ?_, st.clock + 1, st₁.clock, made.pid, Nat.le_succ _, hclock, ?_, hpid, hx⟩
      · rw [hst]
        simp
      · exact Nat.lt_add_of_pos_right (by decide : 0 < 3)

theorem fillChild_frame (env : CacheEnv) {instantiate : St → Lookup × St}
    (hkeeps : KeepsNone instantiate) (st : St) : Frame st (fillChild env instantiate st) := by
  unfold fillChild
  split
  · exact (Frame.refl st).tick
  · split
    · exact (Frame.refl st).tick.tick.trans (hkeeps.frame _)
    · exact (Frame.refl st).tick.tick

theorem fillChild_owes (env : CacheEnv) {instantiate : St → Lookup × St}
    (hkeeps : KeepsNone instantiate) (h : Owes st held) :
    Owes (fillChild env instantiate st) held := by
  unfold fillChild
  split
  · exact h.tick
  · split
    · exact hkeeps.owes _ _ h.tick.tick
    · exact h.tick.tick

/-- **An entry is offered once**, whether or not it has to be made first. -/
theorem procFillCache_offers (env : CacheEnv) (filldir : ℕ → ℤ) {instantiate : St → Lookup × St}
    (hkeeps : KeepsNone instantiate) (e : Entry) (st : St) :
    Offers e st (procFillCache env filldir instantiate e st) :=
  (fill_offers filldir e _).after (fillChild_frame env hkeeps st)
    fun _ h => fillChild_owes env hkeeps h

/-- **What the inode of a name is.**  During the call its pid is that of the task, and
has a task, whose user it belongs to if it may. -/
theorem pidInstantiate_made {mode : UInt16} {nlink : Option ℕ}
    (h : (pidInstantiate env mode nlink task st).1 = .ok inode) :
    ∃ t task', st.clock ≤ t ∧ t + 1 < (pidInstantiate env mode nlink task st).2.clock ∧
      env.taskPid (st.clock + 1) task = some inode.pid ∧ env.pidTask t inode.pid = some task' ∧
      (inode.uid, inode.gid) = ownerAt env (t + 1) mode task' ∧
      inode.mode = mode &&& ~~~ sIsugid := by
  have hclock := (procPidMakeInode_frame env task st).clock
  have hpid : ∀ made, (procPidMakeInode env task st).1 = some made →
      env.taskPid (st.clock + 1) task = some made.pid :=
    fun _ hmade => (procPidMakeInode_made hmade).1
  unfold pidInstantiate at h ⊢
  split at h
  · cases h
  · next made st₁ heq =>
    rw [heq] at hclock hpid
    obtain ⟨task', htask, howner, hmode, -, hpid', hlater⟩ :=
      pidRevalidate_valid (closeRace_eq_ok_iff.mp h)
    refine ⟨st₁.clock, task', hclock, ?_, ?_, ?_, howner, hmode⟩
    · rw [closeRace_snd]
      exact hlater
    · rw [hpid']
      exact hpid made rfl
    · rw [hpid']
      exact htask

/-- The task of a pid is there all the time. -/
structure TaskStays (env : TaskEnv) (pid : PidPtr) (task : TaskPtr) : Prop where
  task_eq : ∀ t, env.pidTask t pid = some task
  pid_eq : ∀ t, env.taskPid t task = some pid

/-- There is always memory for an inode. -/
def HasInodes (env : TaskEnv) : Prop := ∀ t, (env.newInode t).isSome = true

/-- A process that stays there. -/
def oneTask : TaskEnv where
  pidTask := fun _ pid => if pid = 1 then some 7 else none
  taskPid := fun _ _ => some 1
  dumpable := fun _ _ => some 1
  euid := fun _ _ => 1000
  egid := fun _ _ => 100
  newInode := fun _ => some ⟨0, 1, 0, 0, 0, 0⟩

/-- The process, with nothing of it in the dentry cache yet. -/
def oneTaskCache : CacheEnv := ⟨oneTask, fun _ => false, fun _ => true⟩

theorem procPidMakeInode_stays (h : TaskStays env pid task) (hinodes : HasInodes env) (st : St) :
    ∃ inode st₁, procPidMakeInode env task st = (some inode, st₁) ∧ inode.pid = pid := by
  obtain ⟨inode, hnew⟩ := Option.isSome_iff_exists.mp (hinodes st.clock)
  unfold procPidMakeInode
  rw [hnew]
  dsimp only
  rw [h.pid_eq]
  dsimp only
  split
  · exact ⟨_, _, rfl, rfl⟩
  · exact ⟨_, _, rfl, rfl⟩

/-- The inode of a task that stays there can be made. -/
theorem pidInstantiate_stays (h : TaskStays env pid task) (hinodes : HasInodes env) (mode : UInt16)
    (nlink : Option ℕ) (st : St) :
    ∃ inode, (pidInstantiate env mode nlink task st).1 = .ok inode := by
  obtain ⟨made, st₁, hmake, hpid⟩ := procPidMakeInode_stays h hinodes st
  unfold pidInstantiate
  rw [hmake]
  dsimp only
  have htask : env.pidTask st₁.clock
      ({ made with mode := mode, nlink := nlink.getD made.nlink } : Inode).pid = some task := by
    dsimp only
    rw [hpid]
    exact h.task_eq _
  obtain ⟨inode, hvalid⟩ := pidRevalidate_some htask
  exact ⟨inode, closeRace_eq_ok_iff.mpr hvalid⟩

end Dir
end Proc
end KernelStudy
