import KernelStudy.Lib.Loans
import KernelStudy.Proc.Settings

/-!
# The mounts of a process

`/proc/<pid>/mounts` and the two files like it show the mount namespace of a process.
Such a file keeps the namespace and the root of the process for as long as it is open,
whatever becomes of the process.  It can also be polled: the caller learns if the mounts
have changed since he last asked.

The directory and the root of a process are found on the same way, as `cwd` and `root`.

## Main definitions

* `ProcMounts`, `MountsSt` — what an open file keeps, and the memory that it is in.
* `getFsPath`, `procCwdLink`, `procRootLink`, `mountsOpenCommon`, `mountsRelease`,
  `mountsPoll` — the code.
* `MountsEvent`, `mountsStep` — what happens, in any order.

## Main results

* `mountsStep_happens` — the ways a step can go, from which the rest is read off.
* `mounts_references` — **a file that is open holds its memory, its namespace and its
  root, and nothing else is held**, but for the paths that readers have.
* `mounts_polls` — **a change is reported to every file once.**
-/

namespace KernelStudy
namespace Proc

open Dir (enoent enomem)

/-! ### The code -/

/-- Which of the files it is: the operations that `seq_open` is given. -/
inductive MountsOp where
  | mounts
  | mountinfo
  | mountstats
  deriving DecidableEq

/-- The file operations have `mounts_poll`. -/
def MountsOp.polls : MountsOp → Bool
  | .mounts => true
  | .mountinfo => true
  | .mountstats => false

/-- `struct proc_mounts`. -/
structure ProcMounts where
  /-- `m.op`. -/
  op : MountsOp
  ns : ℕ
  root : ℕ
  event : BitVec 32
  deriving DecidableEq

/-- What references are taken to. -/
inductive MountsRef where
  | task (t : TaskPtr)
  | ns (n : ℕ)
  | path (r : ℕ)
  /-- Memory from `kmalloc`. -/
  | mem (p : ℕ)
  deriving DecidableEq

/-- `struct fs_struct`. -/
structure FsStruct where
  root : ℕ
  pwd : ℕ

/-- A task, as far as it is looked at. -/
structure MountsTask where
  task : TaskPtr
  /-- `task_nsproxy`, and its `mnt_ns`. -/
  nsproxy : Option (Option ℕ)
  /-- `task->fs`. -/
  fs : Option FsStruct

/-- What a call to open a file meets with. -/
structure OpenCall where
  /-- `get_proc_task`. -/
  task : Option MountsTask
  kmalloc : Option ℕ
  seqOpen : ℤ

/-- The files, the memory and the namespaces, and what has been taken and given back. -/
structure MountsSt (φ : Type*) where
  /-- `file->private_data`. -/
  privateData : φ → Option ℕ
  heap : ℕ → ProcMounts
  /-- `ns->event`. -/
  nsEvent : ℕ → BitVec 32
  loans : List (Loan MountsRef)

variable {φ : Type*}

/-- A reference is taken. -/
def MountsSt.take (st : MountsSt φ) (x : MountsRef) : MountsSt φ :=
  { st with loans := st.loans ++ [.take x] }

/-- A reference is given back. -/
def MountsSt.give (st : MountsSt φ) (x : MountsRef) : MountsSt φ :=
  { st with loans := st.loans ++ [.give x] }

/-- `get_fs_path`; `none` stands for `-ENOENT`. -/
def getFsPath (t : MountsTask) (root : Bool) (st : MountsSt φ) : Option ℕ × MountsSt φ :=
  match t.fs with
  | none => (none, st)
  | some fs =>
      let path := if root then fs.root else fs.pwd
      (some path, st.take (.path path))

/-- `proc_cwd_link` and `proc_root_link`: the result, and the path. -/
def fsLink (root : Bool) (task : Option MountsTask) (st : MountsSt φ) :
    ℤ × Option ℕ × MountsSt φ :=
  match task with
  | none => (enoent, none, st)
  | some t =>
      let r := getFsPath t root (st.take (.task t.task))
      (if r.1.isSome then 0 else enoent, r.1, r.2.give (.task t.task))

/-- `proc_cwd_link`. -/
def procCwdLink : Option MountsTask → MountsSt φ → ℤ × Option ℕ × MountsSt φ := fsLink false

/-- `proc_root_link`. -/
def procRootLink : Option MountsTask → MountsSt φ → ℤ × Option ℕ × MountsSt φ := fsLink true

section

variable [DecidableEq φ]

/-- `mounts_open_common`. -/
def mountsOpenCommon (op : MountsOp) (file : φ) (call : OpenCall) (st : MountsSt φ) :
    ℤ × MountsSt φ :=
  match call.task with
  | none => (einval, st)
  | some t =>
      let st := st.take (.task t.task)
      match t.nsproxy.join with
      | none => (einval, st.give (.task t.task))
      | some ns =>
          let r := getFsPath t true (st.take (.ns ns))
          let st := r.2.give (.task t.task)
          match r.1 with
          -- the error of `get_fs_path` is lost
          | none => (einval, st.give (.ns ns))
          | some root =>
              match call.kmalloc with
              | none => (enomem, (st.give (.path root)).give (.ns ns))
              | some p =>
                  let st := { st.take (.mem p) with
                    privateData := Function.update st.privateData file (some p) }
                  if call.seqOpen ≠ 0 then
                    -- the file keeps a pointer to memory that is free again
                    (call.seqOpen, ((st.give (.mem p)).give (.path root)).give (.ns ns))
                  else
                    (0, { st with heap := Function.update st.heap p ⟨op, ns, root, st.nsEvent ns⟩ })

/-- `mounts_open`. -/
def mountsOpen : φ → OpenCall → MountsSt φ → ℤ × MountsSt φ := mountsOpenCommon .mounts

/-- `mountinfo_open`. -/
def mountinfoOpen : φ → OpenCall → MountsSt φ → ℤ × MountsSt φ := mountsOpenCommon .mountinfo

/-- `mountstats_open`. -/
def mountstatsOpen : φ → OpenCall → MountsSt φ → ℤ × MountsSt φ := mountsOpenCommon .mountstats

/-- The `open` of a file. -/
def MountsOp.open : MountsOp → φ → OpenCall → MountsSt φ → ℤ × MountsSt φ
  | .mounts => mountsOpen
  | .mountinfo => mountinfoOpen
  | .mountstats => mountstatsOpen

end

/-- `mounts_release`; `none` if it follows a null pointer. -/
def mountsRelease (file : φ) (st : MountsSt φ) : Option (MountsSt φ) :=
  match st.privateData file with
  | none => none
  | some p =>
      let st := (st.give (.path (st.heap p).root)).give (.ns (st.heap p).ns)
      -- `seq_release` frees the memory
      some (st.give (.mem p))

/-- `POLLIN | POLLRDNORM`. -/
def pollReadable : ℕ := 0x41

/-- `POLLERR | POLLPRI`. -/
def pollChanged : ℕ := 0xa

/-- `mounts_poll`; `none` if it follows a null pointer. -/
def mountsPoll (file : φ) (st : MountsSt φ) : Option (ℕ × MountsSt φ) :=
  match st.privateData file with
  | none => none
  | some p =>
      let m := st.heap p
      if m.event ≠ st.nsEvent m.ns then
        some (pollReadable ||| pollChanged,
          { st with heap := Function.update st.heap p { m with event := st.nsEvent m.ns } })
      else some (pollReadable, st)

/-! ### What happens -/

/-- What happens to the files. -/
inductive MountsEvent (φ : Type*) where
  | openFile (op : MountsOp) (file : φ) (call : OpenCall)
  | releaseFile (file : φ)
  | pollFile (file : φ)
  /-- The mounts of a namespace change, and it gets a new stamp. -/
  | touch (ns : ℕ) (stamp : BitVec 32)
  /-- A reader follows `cwd` or `root`. -/
  | link (root : Bool) (task : Option MountsTask)
  /-- A reader is done with a path. -/
  | pathPut (path : ℕ)

/-- The file that an event is about. -/
def MountsEvent.file : MountsEvent φ → Option φ
  | .openFile _ file _ => some file
  | .releaseFile file => some file
  | .pollFile file => some file
  | _ => none

/-- The stamp that an event gives to a namespace. -/
def MountsEvent.stamp (ns : ℕ) : MountsEvent φ → Option (BitVec 32)
  | .touch n stamp => if n = ns then some stamp else none
  | _ => none

/-- The last stamp that a namespace is given. -/
def lastStamp (ns : ℕ) (events : List (MountsEvent φ)) : Option (BitVec 32) :=
  lastOf (MountsEvent.stamp ns) events

/-- The files, those that are open, and the paths that readers have. -/
structure MountsWorld (φ : Type*) extends MountsSt φ where
  opened : Finset φ
  readers : Multiset ℕ

variable [DecidableEq φ]

/-- One event; `none` if it cannot happen. -/
def mountsStep (w : MountsWorld φ) : MountsEvent φ → Option (MountsWorld φ)
  | .openFile op file call =>
      -- `kmalloc` hands out no memory that is in use
      if file ∉ w.opened ∧
          (call.kmalloc = none ∨ ∀ g ∈ w.opened, w.privateData g ≠ call.kmalloc) then
        let r := op.open file call w.toMountsSt
        some ⟨r.2, if r.1 = 0 then insert file w.opened else w.opened, w.readers⟩
      else none
  | .releaseFile file =>
      if file ∈ w.opened then
        (mountsRelease file w.toMountsSt).map fun st => ⟨st, w.opened.erase file, w.readers⟩
      else none
  | .pollFile file =>
      if file ∈ w.opened ∧ (w.privateData file).any fun p => (w.heap p).op.polls then
        (mountsPoll file w.toMountsSt).map fun r => ⟨r.2, w.opened, w.readers⟩
      else none
  | .touch ns stamp => some { w with nsEvent := Function.update w.nsEvent ns stamp }
  | .link root task =>
      let r := (if root then procRootLink else procCwdLink) task w.toMountsSt
      some ⟨r.2.2, w.opened, r.2.1.elim w.readers fun path => path ::ₘ w.readers⟩
  | .pathPut path =>
      if path ∈ w.readers then
        some ⟨w.give (.path path), w.opened, w.readers.erase path⟩
      else none

/-! ### What a call does -/

variable {st : MountsSt φ} {held : Multiset MountsRef}

omit [DecidableEq φ] in
/-- A path is found, and held. -/
theorem getFsPath_owing (st : MountsSt φ) (h : Owing st.loans held) (t : MountsTask) (root : Bool) :
    ∃ loans, (getFsPath t root st).2 = { st with loans := loans } ∧
      Owing loans ((getFsPath t root st).1.elim held fun path => .path path ::ₘ held) := by
  unfold getFsPath
  cases t.fs with
  | none => exact ⟨_, rfl, h⟩
  | some fs => exact ⟨_, rfl, h.take _⟩

omit [DecidableEq φ] in
/-- A link is followed: only the path stays with the reader. -/
theorem fsLink_owing (h : Owing st.loans held) (root : Bool) (task : Option MountsTask) :
    ∃ loans, (fsLink root task st).2.2 = { st with loans := loans } ∧
      Owing loans ((fsLink root task st).2.1.elim held fun path => .path path ::ₘ held) := by
  cases task with
  | none => exact ⟨_, rfl, h⟩
  | some t =>
    obtain ⟨loans, hst, howing⟩ := getFsPath_owing (st.take (.task t.task))
      (h.take (.task t.task)) t root
    simp only [fsLink, hst]
    refine ⟨_, rfl, ?_⟩
    cases hpath : (getFsPath t root (st.take (.task t.task))).1 with
    | none =>
      rw [hpath] at howing
      exact Owing.give howing
    | some path =>
      rw [hpath, Option.elim_some, Multiset.cons_swap] at howing
      exact howing.give

/-- A call that fails has changed nothing that anybody else sees. -/
structure OpenFails (file : φ) (st st' : MountsSt φ) (held : Multiset MountsRef) : Prop where
  heap : st'.heap = st.heap
  nsEvent : st'.nsEvent = st.nsEvent
  others : ∀ g, g ≠ file → st'.privateData g = st.privateData g
  owing : Owing st'.loans held

/-- A call that succeeds has new memory, a namespace and a root. -/
structure OpenSucceeds (op : MountsOp) (file : φ) (p ns root : ℕ) (st st' : MountsSt φ)
    (held : Multiset MountsRef) : Prop where
  heap : st'.heap = Function.update st.heap p ⟨op, ns, root, st.nsEvent ns⟩
  nsEvent : st'.nsEvent = st.nsEvent
  privateData : st'.privateData = Function.update st.privateData file (some p)
  owing : Owing st'.loans (.mem p ::ₘ .path root ::ₘ .ns ns ::ₘ held)

/-- The ways a call can end. -/
theorem mountsOpenCommon_cases (h : Owing st.loans held) (op : MountsOp) (file : φ)
    (call : OpenCall) :
    ((mountsOpenCommon op file call st).1 ≠ 0 ∧
      OpenFails file st (mountsOpenCommon op file call st).2 held) ∨
    ((mountsOpenCommon op file call st).1 = 0 ∧ ∃ p ns root, call.kmalloc = some p ∧
      OpenSucceeds op file p ns root st (mountsOpenCommon op file call st).2 held) := by
  have hinval : einval ≠ 0 := by decide
  have hnomem : enomem ≠ 0 := by decide
  unfold mountsOpenCommon
  cases call.task with
  | none => exact Or.inl ⟨hinval, rfl, rfl, fun _ _ => rfl, h⟩
  | some t =>
    have htask := h.take (.task t.task)
    dsimp only
    cases t.nsproxy.join with
    | none => exact Or.inl ⟨hinval, rfl, rfl, fun _ _ => rfl, htask.give⟩
    | some ns =>
      obtain ⟨loans, hst, howing⟩ := getFsPath_owing ((st.take (.task t.task)).take (.ns ns))
        (htask.take (.ns ns)) t true
      dsimp only
      rw [hst]
      generalize (getFsPath t true ((st.take (.task t.task)).take (.ns ns))).1 = path at howing ⊢
      cases path with
      | none =>
        rw [Option.elim_none, Multiset.cons_swap] at howing
        exact Or.inl ⟨hinval, rfl, rfl, fun _ _ => rfl, howing.give.give⟩
      | some root =>
        -- the task goes first, though it was taken first
        rw [Option.elim_some, Multiset.cons_swap (MountsRef.ns ns),
          Multiset.cons_swap (MountsRef.path root)] at howing
        have hboth := howing.give
        dsimp only
        cases call.kmalloc with
        | none => exact Or.inl ⟨hnomem, rfl, rfl, fun _ _ => rfl, hboth.give.give⟩
        | some p =>
          have hmem := hboth.take (.mem p)
          dsimp only
          split
          · next hret =>
            refine Or.inl ⟨hret, rfl, rfl, fun g hg => ?_, hmem.give.give.give⟩
            exact Function.update_of_ne hg _ _
          · exact Or.inr ⟨rfl, p, ns, root, rfl, rfl, rfl, rfl, hmem⟩

theorem MountsOp.open_eq (op : MountsOp) : (op.open : φ → OpenCall → MountsSt φ → _) =
    mountsOpenCommon op := by
  cases op <;> rfl

omit [DecidableEq φ] in
theorem mountsRelease_eq {file : φ} {p : ℕ} (h : st.privateData file = some p) :
    mountsRelease file st =
      some (((st.give (.path (st.heap p).root)).give (.ns (st.heap p).ns)).give (.mem p)) := by
  rw [mountsRelease, h]

/-- The stamp that is kept at `p` becomes the one of the namespace. -/
def MountsSt.seen (st : MountsSt φ) (p : ℕ) : MountsSt φ :=
  { st with
    heap := Function.update st.heap p { st.heap p with event := st.nsEvent (st.heap p).ns } }

omit [DecidableEq φ] in
/-- After a call the stamp is the one of the namespace, whether it was or not. -/
theorem mountsPoll_eq {file : φ} {p : ℕ} (h : st.privateData file = some p) :
    mountsPoll file st =
      some (if (st.heap p).event ≠ st.nsEvent (st.heap p).ns then pollReadable ||| pollChanged
        else pollReadable, st.seen p) := by
  unfold mountsPoll
  rw [h]
  dsimp only
  split
  · rfl
  · next hsame =>
    rw [not_not] at hsame
    rw [MountsSt.seen, ← hsame, Function.update_eq_self]

/-! ### What is held -/

/-- What a file holds. -/
def fileRefs (st : MountsSt φ) (file : φ) : Multiset MountsRef :=
  (st.privateData file).elim 0 fun p =>
    .mem p ::ₘ .path (st.heap p).root ::ₘ {.ns (st.heap p).ns}

/-- What the files that are open and the readers hold. -/
def MountsWorld.refs (w : MountsWorld φ) : Multiset MountsRef :=
  ∑ f ∈ w.opened, fileRefs w.toMountsSt f + w.readers.map MountsRef.path

/-- Every file that is open has memory of its own, and holds what it says. -/
structure Kept (w : MountsWorld φ) : Prop where
  live : ∀ f ∈ w.opened, ∃ p, w.privateData f = some p
  apart : ∀ f ∈ w.opened, ∀ g ∈ w.opened, w.privateData f = w.privateData g → f = g
  owing : Owing w.loans w.refs

/-- A file, and what it keeps, are the same before and after. -/
structure Untouched (st st' : MountsSt φ) (file : φ) : Prop where
  privateData : st'.privateData file = st.privateData file
  heap : ∀ p, st.privateData file = some p → st'.heap p = st.heap p

omit [DecidableEq φ] in
theorem fileRefs_of_some {file : φ} {p : ℕ} (h : st.privateData file = some p) :
    fileRefs st file = .mem p ::ₘ .path (st.heap p).root ::ₘ {.ns (st.heap p).ns} := by
  rw [fileRefs, h]
  rfl

omit [DecidableEq φ] in
theorem Untouched.fileRefs {st' : MountsSt φ} {file : φ} (h : Untouched st st' file) :
    fileRefs st' file = fileRefs st file := by
  unfold Proc.fileRefs
  rw [h.privateData]
  cases hp : st.privateData file with
  | none => rfl
  | some p =>
    dsimp only [Option.elim]
    rw [h.heap p hp]

omit [DecidableEq φ] in
theorem fileRefs_seen (st : MountsSt φ) (p : ℕ) (file : φ) :
    fileRefs (st.seen p) file = fileRefs st file := by
  unfold fileRefs MountsSt.seen
  dsimp only
  cases st.privateData file with
  | none => rfl
  | some q =>
    by_cases hq : q = p
    · subst hq
      simp
    · simp [Function.update_of_ne hq]

/-! ### What an event does -/

/-- What an event does to a world in which every file has its own memory. -/
inductive Happens (w : MountsWorld φ) : MountsEvent φ → MountsWorld φ → Prop where
  | fails {op : MountsOp} {file : φ} {call : OpenCall} {st' : MountsSt φ} (hfile : file ∉ w.opened)
      (hst : OpenFails file w.toMountsSt st' w.refs) :
      Happens w (.openFile op file call) ⟨st', w.opened, w.readers⟩
  | succeeds {op : MountsOp} {file : φ} {call : OpenCall} {p ns root : ℕ} {st' : MountsSt φ}
      (hfile : file ∉ w.opened) (hfresh : ∀ g ∈ w.opened, w.privateData g ≠ some p)
      (hst : OpenSucceeds op file p ns root w.toMountsSt st' w.refs) :
      Happens w (.openFile op file call) ⟨st', insert file w.opened, w.readers⟩
  | releases {file : φ} {p : ℕ} (hfile : file ∈ w.opened) (hp : w.privateData file = some p) :
      Happens w (.releaseFile file)
        ⟨((w.give (.path (w.heap p).root)).give (.ns (w.heap p).ns)).give (.mem p),
          w.opened.erase file, w.readers⟩
  | polls {file : φ} {p : ℕ} (hfile : file ∈ w.opened) (hp : w.privateData file = some p) :
      Happens w (.pollFile file) ⟨w.seen p, w.opened, w.readers⟩
  | touches (ns : ℕ) (stamp : BitVec 32) :
      Happens w (.touch ns stamp) { w with nsEvent := Function.update w.nsEvent ns stamp }
  | links {root : Bool} {task : Option MountsTask} {path : Option ℕ} {loans : List (Loan MountsRef)}
      (howing : Owing loans (path.elim w.refs fun r => .path r ::ₘ w.refs)) :
      Happens w (.link root task)
        ⟨{ w.toMountsSt with loans := loans }, w.opened,
          path.elim w.readers fun r => r ::ₘ w.readers⟩
  | puts {path : ℕ} (hmem : path ∈ w.readers) :
      Happens w (.pathPut path) ⟨w.give (.path path), w.opened, w.readers.erase path⟩

variable {w w' : MountsWorld φ} {f : φ} {e : MountsEvent φ}

omit [DecidableEq φ] in
theorem fsLink_of_root (root : Bool) :
    (if root then procRootLink else procCwdLink : Option MountsTask → MountsSt φ → _) =
      fsLink root := by
  cases root <;> rfl

/-- **The ways a step can go.** -/
theorem mountsStep_happens (hw : Kept w) (h : mountsStep w e = some w') : Happens w e w' := by
  cases e with
  | openFile op file call =>
    simp only [mountsStep, MountsOp.open_eq] at h
    split at h
    · next hcan =>
      cases h
      rcases mountsOpenCommon_cases hw.owing op file call with ⟨hret, hst⟩ |
        ⟨hret, p, ns, root, hp, hst⟩
      · rw [if_neg hret]
        exact .fails hcan.1 hst
      · rw [if_pos hret]
        refine .succeeds hcan.1 (fun g hg => ?_) hst
        rcases hcan.2 with hnone | hfresh
        · rw [hnone] at hp
          cases hp
        · rw [← hp]
          exact hfresh g hg
    · cases h
  | releaseFile file =>
    simp only [mountsStep] at h
    split at h
    · next hopen =>
      obtain ⟨p, hp⟩ := hw.live file hopen
      rw [mountsRelease_eq hp] at h
      cases h
      exact .releases hopen hp
    · cases h
  | pollFile file =>
    simp only [mountsStep] at h
    split at h
    · next hopen =>
      obtain ⟨p, hp⟩ := hw.live file hopen.1
      rw [mountsPoll_eq hp] at h
      cases h
      exact .polls hopen.1 hp
    · cases h
  | touch ns stamp =>
    cases h
    exact .touches ns stamp
  | link root task =>
    simp only [mountsStep, fsLink_of_root] at h
    cases h
    obtain ⟨loans, hst, howing⟩ := fsLink_owing hw.owing root task
    rw [hst]
    exact .links howing
  | pathPut path =>
    simp only [mountsStep] at h
    split at h
    · next hmem =>
      cases h
      exact .puts hmem
    · cases h

/-- **An event that is about another file leaves this one alone.** -/
theorem Happens.untouched (h : Happens w e w') (hw : Kept w) (hf : f ∈ w.opened)
    (he : e.file ≠ some f) : f ∈ w'.opened ∧ Untouched w.toMountsSt w'.toMountsSt f := by
  cases h with
  | fails hfile hst =>
    exact ⟨hf, hst.others f fun heq => he (by rw [heq]; rfl), fun q _ => congrFun hst.heap q⟩
  | @succeeds op file call p ns root st' hfile hfresh hst =>
    refine ⟨Finset.mem_insert_of_mem hf, ?_, fun q hq => ?_⟩
    · have hne : f ≠ file := fun heq => hfile (heq ▸ hf)
      rw [hst.privateData, Function.update_of_ne hne]
    · have hne : q ≠ p := fun heq => hfresh f hf (heq ▸ hq)
      rw [hst.heap, Function.update_of_ne hne]
  | releases hfile hp =>
    exact ⟨Finset.mem_erase.mpr ⟨fun heq => he (by rw [heq]; rfl), hf⟩, rfl, fun _ _ => rfl⟩
  | polls hfile hp =>
    refine ⟨hf, rfl, fun q hq => Function.update_of_ne ?_ _ _⟩
    -- two files that are open do not share their memory
    rintro rfl
    exact he (congrArg some (hw.apart _ hfile _ hf (hp.trans hq.symm)))
  | touches ns stamp => exact ⟨hf, rfl, fun _ _ => rfl⟩
  | links howing => exact ⟨hf, rfl, fun _ _ => rfl⟩
  | puts hmem => exact ⟨hf, rfl, fun _ _ => rfl⟩

omit [DecidableEq φ] in
/-- The files that are open hold the same before and after. -/
theorem sum_fileRefs_congr {st st' : MountsSt φ} {files : Finset φ}
    (h : ∀ f ∈ files, Untouched st st' f) :
    ∑ f ∈ files, fileRefs st' f = ∑ f ∈ files, fileRefs st f :=
  Finset.sum_congr rfl fun f hf => (h f hf).fileRefs

omit [DecidableEq φ] in
/-- A file that fails to be opened leaves the others as they were. -/
theorem Kept.fails (hw : Kept w) {file : φ} {st' : MountsSt φ}
    (hst : OpenFails file w.toMountsSt st' w.refs)
    (hothers : ∀ f ∈ w.opened, Untouched w.toMountsSt st' f) :
    Kept ⟨st', w.opened, w.readers⟩ where
  live f hf := by
    rw [(hothers f hf).privateData]
    exact hw.live f hf
  apart f hf g hg heq := by
    rw [(hothers f hf).privateData, (hothers g hg).privateData] at heq
    exact hw.apart f hf g hg heq
  owing := by
    rw [MountsWorld.refs, sum_fileRefs_congr hothers]
    exact hst.owing

/-- A file that is opened gets memory of its own. -/
theorem Kept.opens (hw : Kept w) {op : MountsOp} {file : φ} {p ns root : ℕ} {st' : MountsSt φ}
    (hfile : file ∉ w.opened) (hfresh : ∀ g ∈ w.opened, w.privateData g ≠ some p)
    (hst : OpenSucceeds op file p ns root w.toMountsSt st' w.refs)
    (hothers : ∀ f ∈ w.opened, Untouched w.toMountsSt st' f) :
    Kept ⟨st', insert file w.opened, w.readers⟩ := by
  have hself : st'.privateData file = some p := by rw [hst.privateData, Function.update_self]
  refine ⟨fun f hf => ?_, fun f hf g hg heq => ?_, ?_⟩
  · rcases Finset.mem_insert.mp hf with rfl | hf
    · exact ⟨p, hself⟩
    · rw [(hothers f hf).privateData]
      exact hw.live f hf
  · dsimp only at heq
    rcases Finset.mem_insert.mp hf with hf' | hf' <;> rcases Finset.mem_insert.mp hg with hg' | hg'
    · rw [hf', hg']
    · rw [hf', hself, (hothers g hg').privateData] at heq
      exact absurd heq.symm (hfresh g hg')
    · rw [hg', hself, (hothers f hf').privateData] at heq
      exact absurd heq (hfresh f hf')
    · rw [(hothers f hf').privateData, (hothers g hg').privateData] at heq
      exact hw.apart f hf' g hg' heq
  · rw [MountsWorld.refs, Finset.sum_insert hfile, sum_fileRefs_congr hothers,
      fileRefs_of_some hself, hst.heap, Function.update_self, add_assoc, Multiset.cons_add,
      Multiset.cons_add, Multiset.singleton_add]
    exact hst.owing

/-- A file that is released gives back what it held. -/
theorem Kept.releases (hw : Kept w) {file : φ} {p : ℕ} (hfile : file ∈ w.opened)
    (hp : w.privateData file = some p) :
    Kept ⟨((w.give (.path (w.heap p).root)).give (.ns (w.heap p).ns)).give (.mem p),
      w.opened.erase file, w.readers⟩ := by
  refine ⟨fun f hf => hw.live f (Finset.mem_of_mem_erase hf), fun f hf g hg heq => ?_, ?_⟩
  · exact hw.apart f (Finset.mem_of_mem_erase hf) g (Finset.mem_of_mem_erase hg) heq
  · have howing := hw.owing
    rw [MountsWorld.refs, ← Finset.add_sum_erase _ _ hfile, fileRefs_of_some hp, add_assoc,
      Multiset.cons_add, Multiset.cons_add, Multiset.singleton_add,
      Multiset.cons_swap (MountsRef.mem p), Multiset.cons_swap (MountsRef.mem p)] at howing
    exact howing.give.give.give

/-- **Every event keeps the balance.** -/
theorem mountsStep_kept (w : MountsWorld φ) (e : MountsEvent φ) (w' : MountsWorld φ) (hw : Kept w)
    (h : mountsStep w e = some w') : Kept w' := by
  have howing := hw.owing
  cases mountsStep_happens hw h with
  | fails hfile hst =>
    refine hw.fails hst fun f hf => ((mountsStep_happens hw h).untouched hw hf ?_).2
    rintro ⟨⟩
    exact hfile hf
  | succeeds hfile hfresh hst =>
    refine hw.opens hfile hfresh hst fun f hf => ((mountsStep_happens hw h).untouched hw hf ?_).2
    rintro ⟨⟩
    exact hfile hf
  | releases hfile hp => exact hw.releases hfile hp
  | polls hfile hp =>
    refine ⟨hw.live, hw.apart, ?_⟩
    simp only [MountsWorld.refs, fileRefs_seen]
    exact howing
  | touches ns stamp => exact ⟨hw.live, hw.apart, howing⟩
  | @links root task path loans hpath =>
    refine ⟨hw.live, hw.apart, ?_⟩
    cases path with
    | none => exact hpath
    | some r =>
      rw [MountsWorld.refs, Option.elim_some, Multiset.map_cons, Multiset.add_cons]
      exact hpath
  | puts hmem =>
    refine ⟨hw.live, hw.apart, ?_⟩
    rw [MountsWorld.refs, ← Multiset.cons_erase hmem, Multiset.map_cons,
      Multiset.add_cons] at howing
    exact howing.give

/-! ### Histories -/

/-- No file is open yet. -/
def noMounts (heap : ℕ → ProcMounts) (nsEvent : ℕ → BitVec 32) : MountsWorld φ :=
  ⟨⟨fun _ => none, heap, nsEvent, []⟩, ∅, 0⟩

/-- What a file keeps. -/
def mountsOf (st : MountsSt φ) (file : φ) : Option ProcMounts := (st.privateData file).map st.heap

variable {heap : ℕ → ProcMounts} {nsEvent : ℕ → BitVec 32} {events : List (MountsEvent φ)}

omit [DecidableEq φ] in
theorem noMounts_kept : Kept (noMounts heap nsEvent : MountsWorld φ) where
  live f hf := absurd hf (Finset.notMem_empty f)
  apart f hf := absurd hf (Finset.notMem_empty f)
  owing := owing_nil

theorem kept_of_run (h : run mountsStep (noMounts heap nsEvent) events = some w) : Kept w :=
  run_invariant mountsStep_kept events _ w noMounts_kept h

section

omit [DecidableEq φ]

theorem count_fileRefs (st : MountsSt φ) (f : φ) (x : MountsRef) : (fileRefs st f).count x =
    match x with
    | .mem p => if st.privateData f = some p then 1 else 0
    | .ns n => if (mountsOf st f).map ProcMounts.ns = some n then 1 else 0
    | .path r => if (mountsOf st f).map ProcMounts.root = some r then 1 else 0
    | .task _ => 0 := by
  unfold fileRefs mountsOf
  cases st.privateData f with
  | none => cases x <;> simp
  | some p => cases x <;> simp [Multiset.count_cons, Multiset.count_singleton, eq_comm]

theorem count_readers (readers : Multiset ℕ) (x : MountsRef) :
    (readers.map MountsRef.path).count x =
      match x with
      | .path r => readers.count r
      | _ => 0 := by
  cases x with
  | path r =>
    refine Multiset.count_map_eq_count' _ _ (fun a b h => ?_) r
    cases h
    rfl
  | task t => simp
  | ns n => simp
  | mem p => simp

theorem MountsWorld.count_refs (w : MountsWorld φ) (x : MountsRef) : w.refs.count x =
    ∑ f ∈ w.opened, (fileRefs w.toMountsSt f).count x + (w.readers.map MountsRef.path).count x := by
  rw [MountsWorld.refs, Multiset.count_add, Multiset.count_sum']

end

/-- **A file that is open holds its memory, its namespace and its root**: in every
history each reference that is given back is held at that moment, no two files share
their memory, and what is left are these and the paths that readers have. -/
theorem mounts_references (heap : ℕ → ProcMounts) (nsEvent : ℕ → BitVec 32)
    (events : List (MountsEvent φ)) {w : MountsWorld φ}
    (hrun : run mountsStep (noMounts heap nsEvent) events = some w) :
    ∃ held, Owing w.loans held ∧
      (∀ f ∈ w.opened, ∃ p, w.privateData f = some p ∧ held.count (.mem p) = 1) ∧
      (∀ p, held.count (.mem p) = (w.opened.filter fun f => w.privateData f = some p).card) ∧
      (∀ n, held.count (.ns n) = (w.opened.filter fun f =>
        (mountsOf w.toMountsSt f).map ProcMounts.ns = some n).card) ∧
      (∀ r, held.count (.path r) = (w.opened.filter fun f =>
        (mountsOf w.toMountsSt f).map ProcMounts.root = some r).card + w.readers.count r) ∧
      ∀ t, held.count (.task t) = 0 := by
  have hw := kept_of_run hrun
  have hmem : ∀ p, w.refs.count (.mem p) =
      (w.opened.filter fun f => w.privateData f = some p).card := by
    intro p
    rw [w.count_refs, count_readers, add_zero, Finset.card_filter]
    exact Finset.sum_congr rfl fun f _ => count_fileRefs _ f _
  refine ⟨_, hw.owing, fun f hf => ?_, hmem, fun n => ?_, fun r => ?_, fun t => ?_⟩
  · obtain ⟨p, hp⟩ := hw.live f hf
    refine ⟨p, hp, ?_⟩
    rw [hmem, Finset.card_eq_one]
    refine ⟨f, ?_⟩
    ext g
    rw [Finset.mem_filter, Finset.mem_singleton]
    constructor
    · rintro ⟨hg, hgp⟩
      exact hw.apart g hg f hf (hgp.trans hp.symm)
    · rintro rfl
      exact ⟨hf, hp⟩
  · rw [w.count_refs, count_readers, add_zero, Finset.card_filter]
    exact Finset.sum_congr rfl fun f _ => count_fileRefs _ f _
  · rw [w.count_refs, count_readers, Finset.card_filter]
    congr 1
    exact Finset.sum_congr rfl fun f _ => count_fileRefs _ f _
  · rw [w.count_refs, count_readers, add_zero]
    exact Finset.sum_eq_zero fun f _ => count_fileRefs _ f _

/-- Somebody opens a file of a process that is in namespace 5. -/
def openCall (p : ℕ) : OpenCall := ⟨some ⟨3, some (some 5), some ⟨1, 2⟩⟩, some p, 0⟩

/-- A world without files. -/
def quiet : MountsWorld Bool := noMounts (fun _ => ⟨.mounts, 0, 0, 0#32⟩) fun _ => 0#32

/-- One file is opened, another one fails to be for want of a root, and a reader
follows `root`. -/
theorem mounts_of_one_file : ∃ w : MountsWorld Bool,
    run mountsStep quiet [.openFile .mounts true (openCall 100),
      .openFile .mountinfo false ⟨some ⟨4, some (some 5), none⟩, some 200, 0⟩,
      .link true (some ⟨3, none, some ⟨1, 2⟩⟩)] = some w ∧
    ∃ held, Owing w.loans held ∧ held.count (.ns 5) = 1 ∧ held.count (.path 1) = 2 := by
  have hview : (run mountsStep quiet [.openFile .mounts true (openCall 100),
      .openFile .mountinfo false ⟨some ⟨4, some (some 5), none⟩, some 200, 0⟩,
      .link true (some ⟨3, none, some ⟨1, 2⟩⟩)]).map
        (fun w => (
          (w.opened.filter fun f => (mountsOf w.toMountsSt f).map ProcMounts.ns = some 5).card,
          (w.opened.filter fun f => (mountsOf w.toMountsSt f).map ProcMounts.root = some 1).card,
          w.readers)) = some (1, 1, {1}) := by
    decide
  obtain ⟨w, hrun, heq⟩ := Option.map_eq_some_iff.mp hview
  simp only [Prod.mk.injEq] at heq
  obtain ⟨held, howing, -, -, hns, hpath, -⟩ := mounts_references _ _ _ hrun
  refine ⟨w, hrun, held, howing, ?_, ?_⟩
  · rw [hns, heq.1]
  · rw [hpath, heq.2.1, heq.2.2]
    rfl

/-! ### Changes -/

/-- An event gives a namespace its new stamp, if it has one. -/
theorem Happens.stamp (h : Happens w e w') (ns : ℕ) :
    w'.nsEvent ns = (e.stamp ns).getD (w.nsEvent ns) := by
  cases h with
  | fails hfile hst => exact congrFun hst.nsEvent ns
  | succeeds hfile hfresh hst => exact congrFun hst.nsEvent ns
  | releases hfile hp => rfl
  | polls hfile hp => rfl
  | touches n stamp =>
    simp only [MountsEvent.stamp]
    by_cases hn : n = ns
    · subst hn
      rw [if_pos rfl, Function.update_self, Option.getD_some]
    · rw [if_neg hn, Function.update_of_ne (Ne.symm hn), Option.getD_none]
  | links howing => rfl
  | puts hmem => rfl

/-- A namespace has the last stamp that it was given. -/
theorem run_nsEvent (es : List (MountsEvent φ)) (hw : Kept w) (hrun : run mountsStep w es = some w')
    (ns : ℕ) : w'.nsEvent ns = (lastStamp ns es).getD (w.nsEvent ns) := by
  refine run_lastOf (fun w => w.nsEvent ns) (I := Kept) ?_ es w w' hw hrun
  intro w e w' hw h
  exact ⟨mountsStep_kept w e w' hw h, (mountsStep_happens hw h).stamp ns⟩

/-- **While nothing happens to a file, others may come and go**, and it keeps what it
has. -/
theorem run_untouched (es : List (MountsEvent φ)) (hw : Kept w) (hf : f ∈ w.opened)
    (hothers : ∀ e ∈ es, e.file ≠ some f) (hrun : run mountsStep w es = some w') :
    Untouched w.toMountsSt w'.toMountsSt f := by
  induction es generalizing w with
  | nil =>
    cases hrun
    exact ⟨rfl, fun _ _ => rfl⟩
  | cons e es ih =>
    obtain ⟨he, hes⟩ := List.forall_mem_cons.mp hothers
    obtain ⟨w₁, hstep, hrest⟩ := run_cons_eq_some.mp hrun
    obtain ⟨hf₁, hfirst⟩ := (mountsStep_happens hw hstep).untouched hw hf he
    have hlater := ih (mountsStep_kept w e w₁ hw hstep) hf₁ hes hrest
    refine ⟨hlater.privateData.trans hfirst.privateData, fun p hp => ?_⟩
    exact (hlater.heap p (hfirst.privateData.trans hp)).trans (hfirst.heap p hp)

/-- Whoever has just opened or polled a file has seen the last change. -/
theorem Happens.sees (h : Happens w e w') (he : e.file = some f) (hf : f ∈ w'.opened) :
    ∃ p, w'.privateData f = some p ∧ (w'.heap p).event = w'.nsEvent (w'.heap p).ns := by
  cases h with
  | fails hfile hst =>
    cases he
    exact absurd hf hfile
  | @succeeds op file call p ns root st' hfile hfresh hst =>
    cases he
    refine ⟨p, ?_, ?_⟩
    · rw [hst.privateData, Function.update_self]
    · rw [hst.heap, hst.nsEvent, Function.update_self]
  | releases hfile hp =>
    cases he
    exact absurd hf (Finset.notMem_erase f w.opened)
  | @polls file p hfile hp =>
    cases he
    refine ⟨p, hp, ?_⟩
    simp [MountsSt.seen]
  | touches ns stamp => cases he
  | links howing => cases he
  | puts hmem => cases he

/-- **A change is reported to every file once.**  Whoever polls a file is told of a
change exactly if its namespace now has another stamp than when the file was last
polled, or opened: the last one that it was given in between, if any.  Between these two
moments other files may be opened, polled and released, in memory that is used again. -/
theorem mounts_polls (heap : ℕ → ProcMounts) (nsEvent : ℕ → BitVec 32)
    (before since : List (MountsEvent φ)) {w₀ w₁ w₂ : MountsWorld φ} {e : MountsEvent φ} {f : φ}
    (hbefore : run mountsStep (noMounts heap nsEvent) before = some w₀)
    (hlast : mountsStep w₀ e = some w₁) (he : e.file = some f) (hf : f ∈ w₁.opened)
    (hsince : run mountsStep w₁ since = some w₂) (hothers : ∀ e ∈ since, e.file ≠ some f) :
    ∃ m res st, mountsOf w₁.toMountsSt f = some m ∧
      mountsPoll f w₂.toMountsSt = some (res, st) ∧
      ((res = pollReadable ||| pollChanged ∧ w₂.nsEvent m.ns ≠ w₁.nsEvent m.ns) ∨
        (res = pollReadable ∧ w₂.nsEvent m.ns = w₁.nsEvent m.ns)) ∧
      w₂.nsEvent m.ns = (lastStamp m.ns since).getD (w₁.nsEvent m.ns) := by
  have hw₀ := kept_of_run hbefore
  have hw₁ := mountsStep_kept w₀ e w₁ hw₀ hlast
  obtain ⟨p, hp, hseen⟩ := (mountsStep_happens hw₀ hlast).sees he hf
  have hsame := run_untouched since hw₁ hf hothers hsince
  have hp₂ : w₂.privateData f = some p := hsame.privateData.trans hp
  refine ⟨w₁.heap p, _, _, by rw [mountsOf, hp]; rfl, mountsPoll_eq hp₂, ?_,
    run_nsEvent since hw₁ hsince _⟩
  rw [hsame.heap p hp, hseen]
  by_cases hne : w₂.nsEvent (w₁.heap p).ns = w₁.nsEvent (w₁.heap p).ns
  · exact Or.inr ⟨if_neg fun h => h hne.symm, hne⟩
  · exact Or.inl ⟨if_pos (Ne.symm hne), hne⟩

/-- While one file is open, the mounts change, and another file is told first. -/
def otherFile : List (MountsEvent Bool) :=
  [.openFile .mountinfo false (openCall 200), .touch 5 7#32, .pollFile false, .releaseFile false,
    .openFile .mounts false (openCall 200)]

/-- The first file is told, too. -/
theorem mounts_told_to_both : ∃ w₁ w₂ : MountsWorld Bool,
    mountsStep quiet (.openFile .mounts true (openCall 100)) = some w₁ ∧
      run mountsStep w₁ otherFile = some w₂ ∧
      ∃ st, mountsPoll true w₂.toMountsSt = some (pollReadable ||| pollChanged, st) := by
  have hview : ((mountsStep quiet (.openFile .mounts true (openCall 100))).bind fun w₁ =>
      (run mountsStep w₁ otherFile).map fun _ =>
        (decide (true ∈ w₁.opened), mountsOf w₁.toMountsSt true, w₁.nsEvent 5)) =
      some (true, some ⟨.mounts, 5, 1, 0#32⟩, 0#32) := by
    decide
  obtain ⟨w₁, hfirst, hrest⟩ := Option.bind_eq_some_iff.mp hview
  obtain ⟨w₂, hrun, heq⟩ := Option.map_eq_some_iff.mp hrest
  simp only [Prod.mk.injEq, decide_eq_true_eq] at heq
  obtain ⟨m, res, st, hm, hpoll, hres, hnow⟩ := mounts_polls _ _ [] otherFile rfl hfirst rfl
    heq.1 hrun (by simp [otherFile, MountsEvent.file])
  rw [heq.2.1, Option.some.injEq] at hm
  have hstamp : lastStamp m.ns otherFile = some 7#32 := by
    rw [← hm]
    decide
  refine ⟨w₁, w₂, hfirst, hrun, st, ?_⟩
  rcases hres with ⟨hres, -⟩ | ⟨-, hsame⟩
  · rw [hpoll, hres]
  · rw [hnow, hstamp, ← hm, heq.2.2] at hsame
    exact absurd hsame (by decide)

end Proc
end KernelStudy
