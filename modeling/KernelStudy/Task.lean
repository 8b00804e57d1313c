import Mathlib.Tactic

/-!
# Tasks

The fields of the patched `struct task_struct` that the honeypot modules and
the `/proc` scan read or write.  The kernel the modules run in adds `hp_node`,
the honeypot node a task belongs to (negative for none), and `hp_buf`, the
bytes a rewritten path has displaced.

## Main definitions

* `TaskStruct` — one task.
* `TaskHeap` — the tasks of the system, by address.
* `hasGroupLeaderPid` — the test of `has_group_leader_pid`.
-/

namespace KernelStudy

/-- `BACKUP_LEN`: how many bytes in front of a path are displaced. -/
def backupLen : ℕ := 8

/-- The address of a task. -/
abbrev TaskPtr := ℕ

/-- The fields of `struct task_struct` in use here. -/
structure TaskStruct where
  /-- The process id. -/
  pid : ℤ
  /-- The id of the thread group. -/
  tgid : ℤ
  /-- The honeypot node, negative for none. -/
  hpNode : ℤ
  /-- The displaced bytes. -/
  hpBuf : Fin backupLen → UInt8
  /-- The link `next_task` follows. -/
  next : TaskPtr

/-- The tasks of the system. -/
abbrev TaskHeap := TaskPtr → TaskStruct

/-- `has_group_leader_pid`: the task carries the pid of its thread group. -/
def hasGroupLeaderPid (t : TaskStruct) : Bool := t.pid == t.tgid

end KernelStudy
