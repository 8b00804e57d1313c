import KernelStudy.Proc.Inode

/-!
# The fixed entries of a process

What `/proc/<pid>`, `/proc/<pid>/task/<tid>` and their `attr` contain is the same
for every process: `base.c` has a table for each of them, whose length depends on
the configuration of the kernel.  `proc_pident_readdir` lists a table behind `.`
and `..`, and `proc_pident_lookup` searches it for a name.

## Main definitions

* `PidEntry`, `tgidBaseStuff`, `tidBaseStuff`, `attrDirStuff` — the tables.
* `procPidentReaddir`, `procPidentLookup` — the code.
* `procPidInstantiate`, `procTaskInstantiate`, `procBaseInstantiate` — the inodes of
  the directories that contain the tables, and of the entries of `/proc` itself.

## Main results

* `nodup_tables` — no table has a name twice, in no configuration.
* `pident_scan` — **a scan lists the table once, in its order.**
* `pident_lookup` — **what is listed can be looked up, and nothing else.**
-/

namespace KernelStudy
namespace Proc
namespace Dir

/-! ### The tables -/

/-- `struct pid_entry`, as far as it is in use here. -/
structure PidEntry where
  /-- The name. -/
  name : List UInt8
  /-- The mode of its inode. -/
  mode : UInt16

/-- `DIR`. -/
def dir (name : String) (mode : UInt16) : PidEntry := ⟨bytes name, sIfdir ||| mode⟩

/-- `LNK`. -/
def lnk (name : String) : PidEntry := ⟨bytes name, sIflnk ||| sIrwxugo⟩

/-- `REG`, and `INF` and `ONE`, which differ in the operations only. -/
def reg (name : String) (mode : UInt16) : PidEntry := ⟨bytes name, sIfreg ||| mode⟩

/-- The options of the kernel that the tables depend on. -/
structure Config where
  /-- `CONFIG_NET`. -/
  net : Bool
  /-- `CONFIG_SCHED_DEBUG`. -/
  schedDebug : Bool
  /-- `CONFIG_HAVE_ARCH_TRACEHOOK`. -/
  tracehook : Bool
  /-- `CONFIG_NUMA`. -/
  numa : Bool
  /-- `CONFIG_PROC_PAGE_MONITOR`. -/
  pageMonitor : Bool
  /-- `CONFIG_SECURITY`. -/
  security : Bool
  /-- `CONFIG_KALLSYMS`. -/
  kallsyms : Bool
  /-- `CONFIG_STACKTRACE`. -/
  stacktrace : Bool
  /-- `CONFIG_SCHEDSTATS`. -/
  schedstats : Bool
  /-- `CONFIG_LATENCYTOP`. -/
  latencytop : Bool
  /-- `CONFIG_PROC_PID_CPUSET`. -/
  cpuset : Bool
  /-- `CONFIG_CGROUPS`. -/
  cgroups : Bool
  /-- `CONFIG_AUDITSYSCALL`. -/
  audit : Bool
  /-- `CONFIG_FAULT_INJECTION`. -/
  faultInjection : Bool
  /-- `USE_ELF_CORE_DUMP` and `CONFIG_ELF_CORE`. -/
  elfCore : Bool
  /-- `CONFIG_TASK_IO_ACCOUNTING`. -/
  ioAccounting : Bool

/-- The entries of a table whose `#ifdef` the configuration meets. -/
def select (rows : List (Bool × PidEntry)) : List PidEntry :=
  (rows.filter Prod.fst).map Prod.snd

/-- The rows of `tgid_base_stuff`. -/
def tgidRows (c : Config) : List (Bool × PidEntry) :=
  [(true, dir "task" (sIrugo ||| sIxugo)),
    (true, dir "fd" (sIrusr ||| sIxusr)),
    (true, dir "fdinfo" (sIrusr ||| sIxusr)),
    (c.net, dir "net" (sIrugo ||| sIxugo)),
    (true, reg "environ" sIrusr),
    (true, reg "auxv" sIrusr),
    (true, reg "status" sIrugo),
    (true, reg "personality" sIrusr),
    (true, reg "limits" sIrusr),
    (c.schedDebug, reg "sched" (sIrugo ||| sIwusr)),
    (c.tracehook, reg "syscall" sIrusr),
    (true, reg "cmdline" sIrugo),
    (true, reg "stat" sIrugo),
    (true, reg "statm" sIrugo),
    (true, reg "maps" sIrugo),
    (c.numa, reg "numa_maps" sIrugo),
    (true, reg "mem" (sIrusr ||| sIwusr)),
    (true, lnk "cwd"),
    (true, lnk "root"),
    (true, lnk "exe"),
    (true, reg "mounts" sIrugo),
    (true, reg "mountinfo" sIrugo),
    (true, reg "mountstats" sIrusr),
    (c.pageMonitor, reg "clear_refs" sIwusr),
    (c.pageMonitor, reg "smaps" sIrugo),
    (c.pageMonitor, reg "pagemap" sIrusr),
    (c.security, dir "attr" (sIrugo ||| sIxugo)),
    (c.kallsyms, reg "wchan" sIrugo),
    (c.stacktrace, reg "stack" sIrusr),
    (c.schedstats, reg "schedstat" sIrugo),
    (c.latencytop, reg "latency" sIrugo),
    (c.cpuset, reg "cpuset" sIrugo),
    (c.cgroups, reg "cgroup" sIrugo),
    (true, reg "oom_score" sIrugo),
    (true, reg "oom_adj" (sIrugo ||| sIwusr)),
    (c.audit, reg "loginuid" (sIwusr ||| sIrugo)),
    (c.audit, reg "sessionid" sIrugo),
    (c.faultInjection, reg "make-it-fail" (sIrugo ||| sIwusr)),
    (c.elfCore, reg "coredump_filter" (sIrugo ||| sIwusr)),
    (c.ioAccounting, reg "io" sIrugo)]

/-- `tgid_base_stuff`. -/
def tgidBaseStuff (c : Config) : List PidEntry := select (tgidRows c)

/-- The rows of `tid_base_stuff`. -/
def tidRows (c : Config) : List (Bool × PidEntry) :=
  [(true, dir "fd" (sIrusr ||| sIxusr)),
    (true, dir "fdinfo" (sIrusr ||| sIxusr)),
    (true, reg "environ" sIrusr),
    (true, reg "auxv" sIrusr),
    (true, reg "status" sIrugo),
    (true, reg "personality" sIrusr),
    (true, reg "limits" sIrusr),
    (c.schedDebug, reg "sched" (sIrugo ||| sIwusr)),
    (c.tracehook, reg "syscall" sIrusr),
    (true, reg "cmdline" sIrugo),
    (true, reg "stat" sIrugo),
    (true, reg "statm" sIrugo),
    (true, reg "maps" sIrugo),
    (c.numa, reg "numa_maps" sIrugo),
    (true, reg "mem" (sIrusr ||| sIwusr)),
    (true, lnk "cwd"),
    (true, lnk "root"),
    (true, lnk "exe"),
    (true, reg "mounts" sIrugo),
    (true, reg "mountinfo" sIrugo),
    (c.pageMonitor, reg "clear_refs" sIwusr),
    (c.pageMonitor, reg "smaps" sIrugo),
    (c.pageMonitor, reg "pagemap" sIrusr),
    (c.security, dir "attr" (sIrugo ||| sIxugo)),
    (c.kallsyms, reg "wchan" sIrugo),
    (c.stacktrace, reg "stack" sIrusr),
    (c.schedstats, reg "schedstat" sIrugo),
    (c.latencytop, reg "latency" sIrugo),
    (c.cpuset, reg "cpuset" sIrugo),
    (c.cgroups, reg "cgroup" sIrugo),
    (true, reg "oom_score" sIrugo),
    (true, reg "oom_adj" (sIrugo ||| sIwusr)),
    (c.audit, reg "loginuid" (sIwusr ||| sIrugo)),
    (c.audit, reg "sessionid" sIrusr),
    (c.faultInjection, reg "make-it-fail" (sIrugo ||| sIwusr)),
    (c.ioAccounting, reg "io" sIrugo)]

/-- `tid_base_stuff`. -/
def tidBaseStuff (c : Config) : List PidEntry := select (tidRows c)

/-- The rows of `attr_dir_stuff`. -/
def attrRows : List (Bool × PidEntry) :=
  [(true, reg "current" (sIrugo ||| sIwugo)),
    (true, reg "prev" sIrugo),
    (true, reg "exec" (sIrugo ||| sIwugo)),
    (true, reg "fscreate" (sIrugo ||| sIwugo)),
    (true, reg "keycreate" (sIrugo ||| sIwugo)),
    (true, reg "sockcreate" (sIrugo ||| sIwugo))]

/-- `attr_dir_stuff`. -/
def attrDirStuff : List PidEntry := select attrRows

/-- `pid_entry_count_dirs`. -/
def pidEntryCountDirs : List PidEntry → ℕ
  | [] => 0
  | p :: ents => if sIsdir p.mode then pidEntryCountDirs ents + 1 else pidEntryCountDirs ents

/-! ### Names -/

theorem length_select_le (rows : List (Bool × PidEntry)) : (select rows).length ≤ rows.length := by
  rw [select, List.length_map]
  exact List.length_filter_le _ _

/-- The configuration with every option. -/
def allOptions : Config :=
  ⟨true, true, true, true, true, true, true, true, true, true, true, true, true, true, true, true⟩

/-- The rows of the tables of a configuration. -/
def tables (c : Config) : List (List (Bool × PidEntry)) := [tgidRows c, tidRows c, attrRows]

theorem length_tables {c : Config} {rows : List (Bool × PidEntry)} (h : rows ∈ tables c) :
    (select rows).length ≤ 40 := by
  refine (length_select_le rows).trans ?_
  simp only [tables, List.mem_cons, List.not_mem_nil, or_false] at h
  rcases h with rfl | rfl | rfl
  · exact le_rfl
  · exact Nat.le_of_ble_eq_true rfl
  · exact Nat.le_of_ble_eq_true rfl

/-! ### The code -/

section

variable (env : TaskEnv) (ents : List PidEntry)

/-- `proc_base_instantiate`. -/
def procBaseInstantiate (task : TaskPtr) (p : PidEntry) (st : St) : Lookup × St :=
  match env.newInode st.clock with
  | none => (.error enomem, st.tick)
  | some inode =>
      let st := st.tick
      match env.taskPid st.clock task with
      | none => (.error enomem, st.tick)
      | some pid =>
          let nlink := if sIsdir p.mode then 2 else inode.nlink
          (.ok { inode with pid := pid, mode := p.mode, nlink := nlink }, st.tick)

/-- `proc_pid_instantiate`. -/
def procPidInstantiate (c : Config) : TaskPtr → St → Lookup × St :=
  pidInstantiate env openDir (some (2 + pidEntryCountDirs (tgidBaseStuff c)))

/-- `proc_task_instantiate`. -/
def procTaskInstantiate (c : Config) : TaskPtr → St → Lookup × St :=
  pidInstantiate env openDir (some (2 + pidEntryCountDirs (tidBaseStuff c)))

/-- `proc_pident_instantiate`. -/
def procPidentInstantiate (task : TaskPtr) (p : PidEntry) (st : St) : Lookup × St :=
  pidInstantiate env p.mode (if sIsdir p.mode then some 2 else none) task st

/-- `proc_pident_lookup`. -/
def procPidentLookup (pid : PidPtr) (name : List UInt8) (st : St) : Lookup × St :=
  match getProcTask env pid st with
  | (none, st) => (.error enoent, st)
  | (some task, st) =>
      match ents.find? (fun p => p.name == name) with
      | none => (.error enoent, st.log (.put (.task task)))
      | some p =>
          let r := procPidentInstantiate env task p st
          (r.1, r.2.log (.put (.task task)))

end

section

variable (env : CacheEnv) (filldir : ℕ → ℤ) (ents : List PidEntry)

/-- The entry that `proc_pident_fill_cache` makes. -/
def PidEntry.entry (task : TaskPtr) (p : PidEntry) : Entry := (p.name, some task)

/-- `proc_pident_fill_cache`. -/
def procPidentFillCache (task : TaskPtr) (p : PidEntry) : St → ℤ × St :=
  procFillCache env filldir (procPidentInstantiate env.toTaskEnv task p) (p.entry task)

/-- `proc_pident_readdir`.  The `int` it counts with is compared with an `unsigned
int`. -/
def procPidentReaddir (pid : PidPtr) (st : St) : ℤ × St :=
  match getProcTask env.toTaskEnv pid st with
  | (none, st) => (enoent, st)
  | (some task, st) =>
      let i := s32 st.fPos
      match fillLoop (fill filldir) (dotsLeft i) st with
      | (false, st) => (0, st.log (.put (.task task)))
      | (true, st) =>
          let i := s32 (i + (dotsLeft i).length - 2)
          -- a negative `i` is large here, too
          if ents.length ≤ u32 i then (1, st.log (.put (.task task)))
          else
            match fillLoop (procPidentFillCache env filldir task) (ents.drop i.toNat) st with
            | (false, st) => (0, st.log (.put (.task task)))
            | (true, st) => (1, st.log (.put (.task task)))

end

/-! ### What is made for an entry -/

theorem procBaseInstantiate_snd (env : TaskEnv) (task : TaskPtr) (p : PidEntry) (st : St) :
    ∃ t, st.clock ≤ t ∧ (procBaseInstantiate env task p st).2 = { st with clock := t } := by
  unfold procBaseInstantiate
  split
  · exact ⟨_, Nat.le_succ _, rfl⟩
  · dsimp only
    split
    · exact ⟨_, Nat.le_add_right _ 2, rfl⟩
    · exact ⟨_, Nat.le_add_right _ 2, rfl⟩

theorem procBaseInstantiate_keepsNone (env : TaskEnv) (task : TaskPtr) (p : PidEntry) :
    KeepsNone (procBaseInstantiate env task p) where
  frame := by
    intro st
    obtain ⟨t, ht, hst⟩ := procBaseInstantiate_snd env task p st
    rw [hst]
    exact ⟨ht, rfl, rfl, rfl, rfl⟩
  owes := by
    intro st held h
    obtain ⟨t, -, hst⟩ := procBaseInstantiate_snd env task p st
    rw [hst]
    exact h

theorem procPidentFillCache_offers (env : CacheEnv) (filldir : ℕ → ℤ) (task : TaskPtr)
    (p : PidEntry) (st : St) :
    Offers (p.entry task) st (procPidentFillCache env filldir task p st) :=
  procFillCache_offers env filldir (pidInstantiate_keepsNone env.toTaskEnv _ _ task) _ st

/-! ### A listing is one loop -/

/-- All that a directory lists: the first two entries and the table. -/
def listing (ents : List PidEntry) : List (Entry ⊕ PidEntry) := dots.map .inl ++ ents.map .inr

/-- How one of them is listed. -/
def listOne (env : CacheEnv) (filldir : ℕ → ℤ) (task : TaskPtr) : Entry ⊕ PidEntry → St → ℤ × St :=
  Sum.elim (fill filldir) (procPidentFillCache env filldir task)

/-- The entry that it is listed as. -/
def listed (task : TaskPtr) : Entry ⊕ PidEntry → Entry := Sum.elim id (PidEntry.entry task)

theorem listOne_offers (env : CacheEnv) (filldir : ℕ → ℤ) (task : TaskPtr) (x : Entry ⊕ PidEntry)
    (st : St) : Offers (listed task x) st (listOne env filldir task x st) := by
  cases x with
  | inl e => exact fill_offers filldir e st
  | inr p => exact procPidentFillCache_offers env filldir task p st

theorem fillLoop_append {α : Type} (f : α → St → ℤ × St) : ∀ (as as' : List α) (st : St),
    fillLoop f (as ++ as') st =
      if (fillLoop f as st).1 then fillLoop f as' (fillLoop f as st).2 else fillLoop f as st := by
  intro as
  induction as with
  | nil => intro as' st; rfl
  | cons a as ih =>
    intro as' st
    rw [List.cons_append, fillLoop, fillLoop]
    dsimp only
    by_cases hret : (f a st).1 < 0
    · rw [if_pos hret, if_pos hret]
      rfl
    · rw [if_neg hret, if_neg hret]
      exact ih as' _

theorem fillLoop_map {α β : Type} (f : β → St → ℤ × St) (g : α → β) : ∀ (as : List α) (st : St),
    fillLoop f (as.map g) st = fillLoop (fun a => f (g a)) as st := by
  intro as
  induction as with
  | nil => intro st; rfl
  | cons a as ih =>
    intro st
    rw [List.map_cons, fillLoop, fillLoop]
    dsimp only
    rw [ih]

theorem u32_s32 (x : ℤ) : u32 (s32 x) = u32 x := by
  unfold u32 s32
  congr 1
  omega

theorem s32_of_u32_lt (x : ℤ) (h : u32 (s32 x) < 2 ^ 31) : (s32 x).toNat = u32 (s32 x) := by
  unfold u32 s32 at *
  omega

theorem length_dotsLeft (x : ℤ) : (dotsLeft x).length = 2 - u32 x := by
  rw [dotsLeft, List.length_drop]
  rfl

/-- Where the table is entered. -/
theorem u32_index (x : ℤ) : u32 (s32 (s32 x + (dotsLeft (s32 x)).length - 2)) = u32 x - 2 := by
  rw [u32_s32, length_dotsLeft, u32_s32]
  have hlt : u32 x < 2 ^ 32 := by
    unfold u32
    omega
  have hcast : ((u32 x : ℕ) : ℤ) = x % 2 ^ 32 := by
    unfold u32
    omega
  unfold s32
  generalize u32 x = v at *
  unfold u32
  rcases Nat.lt_or_ge v 2 with hv | hv
  · interval_cases v <;> omega
  · rw [Nat.sub_eq_zero_of_le hv]
    omega

/-- **The function lists what is left from its offset on**, whatever the offset
is: the `switch`, the counting and the test for the end come to one loop. -/
theorem procPidentReaddir_eq (env : CacheEnv) (filldir : ℕ → ℤ) {ents : List PidEntry}
    (hlen : ents.length + 2 < 2 ^ 31) (pid : PidPtr) (st : St) :
    procPidentReaddir env filldir ents pid st =
      match getProcTask env.toTaskEnv pid st with
      | (none, st) => (enoent, st)
      | (some task, st) =>
          let r := fillLoop (listOne env filldir task) ((listing ents).drop (u32 st.fPos)) st
          (if r.1 then 1 else 0, r.2.log (.put (.task task))) := by
  unfold procPidentReaddir
  rcases getProcTask env.toTaskEnv pid st with ⟨found, st₁⟩
  cases found with
  | none => rfl
  | some task =>
    dsimp only
    have hleft : dotsLeft (s32 st₁.fPos) = dots.drop (u32 st₁.fPos) := by rw [dotsLeft, u32_s32]
    have hdrop : (listing ents).drop (u32 st₁.fPos) =
        (dotsLeft (s32 st₁.fPos)).map .inl ++ (ents.drop (u32 st₁.fPos - 2)).map .inr := by
      rw [hleft, listing, List.drop_append, List.map_drop, List.map_drop]
      rfl
    have hl : (fun e => listOne env filldir task (.inl e)) = fill filldir := rfl
    have hr : (fun p => listOne env filldir task (.inr p)) =
        procPidentFillCache env filldir task := rfl
    rw [hdrop, fillLoop_append, fillLoop_map, fillLoop_map, hl, hr]
    rcases hdots : fillLoop (fill filldir) (dotsLeft (s32 st₁.fPos)) st₁ with ⟨ok, st₂⟩
    cases ok with
    | false => rfl
    | true =>
      have hindex := u32_index st₁.fPos
      have hint := s32_of_u32_lt (s32 st₁.fPos + (dotsLeft (s32 st₁.fPos)).length - 2)
      generalize s32 (s32 st₁.fPos + (dotsLeft (s32 st₁.fPos)).length - 2) = i at hindex hint ⊢
      dsimp only
      rw [if_pos rfl, hindex]
      split
      · next hend =>
        -- past the end of the table there is nothing to list
        rw [List.drop_eq_nil_of_le hend]
        rfl
      · next hmore =>
        have hi : i.toNat = u32 st₁.fPos - 2 := by
          rw [← hindex]
          exact hint (by omega)
        rw [hi]
        generalize fillLoop (procPidentFillCache env filldir task)
          (ents.drop (u32 st₁.fPos - 2)) st₂ = r
        rcases r with ⟨ok, st₃⟩
        cases ok with
        | false => rfl
        | true => rfl

/-! ### References -/

theorem procPidentLookup_owes (env : TaskEnv) {st : St} {held : Multiset Thing} (h : Owes st held)
    (ents : List PidEntry) (pid : PidPtr) (name : List UInt8) :
    Owes (procPidentLookup env ents pid name st).2 held := by
  have hget := getProcTask_owes env h pid
  unfold procPidentLookup
  split
  · next st₁ heq =>
    rw [heq] at hget
    exact hget
  · next task st₁ heq =>
    rw [heq] at hget
    split
    · exact hget.put
    · exact ((pidInstantiate_keepsNone env _ _ task).owes _ _ hget).put

theorem procPidentReaddir_owes (env : CacheEnv) {st : St} {held : Multiset Thing} (h : Owes st held)
    (filldir : ℕ → ℤ) (ents : List PidEntry) (pid : PidPtr) :
    Owes (procPidentReaddir env filldir ents pid st).2 held := by
  have hget := getProcTask_owes env.toTaskEnv h pid
  unfold procPidentReaddir
  split
  · next st₁ heq =>
    rw [heq] at hget
    exact hget
  · next task st₁ heq =>
    rw [heq] at hget
    dsimp only
    have hdots := hget.fillDots filldir (s32 st₁.fPos)
    generalize fillLoop (fill filldir) (dotsLeft (s32 st₁.fPos)) st₁ = r at hdots ⊢
    rcases r with ⟨ok, st₂⟩
    cases ok with
    | false => exact hdots.put
    | true =>
      dsimp only
      split
      · exact hdots.put
      · generalize ents.drop _ = left
        have hents := Owes.fillLoop hdots (procPidentFillCache_offers env filldir task) left
        generalize fillLoop (procPidentFillCache env filldir task) left st₂ = r at hents ⊢
        rcases r with ⟨ok, st₃⟩
        cases ok with
        | false => exact hents.put
        | true => exact hents.put

/-! ### A scan -/

/-- The names that a directory lists. -/
def allNames (ents : List PidEntry) : List (List UInt8) :=
  [bytes ".", bytes ".."] ++ ents.map PidEntry.name

variable {env : CacheEnv} {filldir : ℕ → ℤ} {ents : List PidEntry} {pid : PidPtr} {st st' : St}

theorem map_listing (ents : List PidEntry) (task : TaskPtr) :
    ((listing ents).map (listed task)).map Prod.fst = allNames ents := by
  simp [listing, listed, allNames, dots, PidEntry.entry, Function.comp_def]

theorem length_allNames (ents : List PidEntry) : (allNames ents).length = 2 + ents.length := by
  simp [allNames]
  omega

/-- The names listed so far are the first ones, and `f_pos` counts them. -/
structure Names (ents : List PidEntry) (st : St) (k : ℕ) : Prop where
  le : k ≤ 2 + ents.length
  names : (accepted st.trace).map Prod.fst = (allNames ents).take k
  fPos : st.fPos = k

/-- **One call goes on where the last one stopped.**  It returns 1 exactly if it has
come to the end of the table. -/
theorem procPidentReaddir_names (hlen : ents.length + 2 < 2 ^ 31) {k : ℕ} (h : Names ents st k)
    {ret : ℤ} (hcall : procPidentReaddir env filldir ents pid st = (ret, st')) :
    ∃ k', Names ents st' k' ∧ k ≤ k' ∧
      (env.pidTask st.clock pid ≠ none → (ret = 1 ↔ k' = 2 + ents.length)) := by
  have hle := h.le
  rw [procPidentReaddir_eq env filldir hlen] at hcall
  unfold getProcTask at hcall
  cases htask : env.pidTask st.clock pid with
  | none =>
    rw [htask] at hcall
    cases hcall
    exact ⟨k, ⟨hle, h.names, h.fPos⟩, le_rfl, fun hne => absurd rfl hne⟩
  | some task =>
    rw [htask] at hcall
    dsimp only at hcall
    generalize hst₁ : st.tick.log (.get (.task task)) = st₁ at hcall
    have hpos₁ : st₁.fPos = k := by rw [← hst₁]; exact h.fPos
    have hacc₁ : accepted st₁.trace = accepted st.trace := by rw [← hst₁]; simp
    rw [hpos₁, u32_of_lt (by omega)] at hcall
    obtain ⟨j, hj⟩ := fillLoop_spec (listOne_offers env filldir task) ((listing ents).drop k) st₁
    have hjlen : (((listing ents).drop k).map (listed task)).length = 2 + ents.length - k := by
      rw [List.map_drop, List.length_drop, ← List.length_map Prod.fst, map_listing, length_allNames]
    generalize fillLoop (listOne env filldir task) ((listing ents).drop k) st₁ = r at hcall hj
    rw [Prod.mk.injEq] at hcall
    obtain ⟨hret, rfl⟩ := hcall
    have hjle := hj.le
    have hok := hj.ok_iff
    rw [hjlen] at hjle hok
    refine ⟨k + j, ⟨by omega, ?_, ?_⟩, Nat.le_add_right _ _, fun _ => ?_⟩
    · rw [log_trace, accepted_append, accepted_put, accepted_nil, List.append_nil, hj.accepted_eq,
        hacc₁, List.map_append, h.names, List.map_take, List.map_drop, List.map_drop, map_listing,
        List.take_add]
    · rw [log_fPos, hj.fPos, hpos₁]
      push_cast
      rfl
    · rw [← hret]
      cases hr : r.1 with
      | false =>
        rw [hr] at hok
        simp at hok ⊢
        omega
      | true =>
        have := hok.mp hr
        simp
        omega

/-- A call, as a step. -/
def readEntries (env : CacheEnv) (filldir : ℕ → ℤ) (ents : List PidEntry) (pid : PidPtr) (st : St)
    (_ : Unit) : Option St :=
  some (procPidentReaddir env filldir ents pid st).2

theorem names_start (ents : List PidEntry) : Names ents start 0 := ⟨Nat.zero_le _, rfl, rfl⟩

/-- **A scan lists the table once, in its order**, in whatever pieces the calls get
through it: at each moment the names listed are the first ones; and while the process
is there, a call returns 1 exactly if it has listed all of them. -/
theorem pident_scan {c : Config} {rows : List (Bool × PidEntry)} (hrows : rows ∈ tables c)
    (env : CacheEnv) (filldir : ℕ → ℤ) (pid : PidPtr) (calls : List Unit) :
    ∃ (st : St) (k : ℕ), run (readEntries env filldir (select rows) pid) start calls = some st ∧
      st.fPos = k ∧ (accepted st.trace).map Prod.fst = (allNames (select rows)).take k ∧
      ∀ ret st', procPidentReaddir env filldir (select rows) pid st = (ret, st') →
        env.pidTask st.clock pid ≠ none →
        (ret = 1 ↔ (accepted st'.trace).map Prod.fst = allNames (select rows)) := by
  have hlen : (select rows).length + 2 < 2 ^ 31 := by
    have := length_tables hrows
    omega
  have hrun : ∃ st, run (readEntries env filldir (select rows) pid) start calls = some st ∧
      ∃ k, Names (select rows) st k := by
    refine run_total (P := fun _ => True) ?_ calls start ⟨0, names_start _⟩ fun _ _ => trivial
    rintro st - ⟨k, hk⟩ -
    obtain ⟨k', hk', -, -⟩ := procPidentReaddir_names hlen hk
      (Prod.mk.eta (p := procPidentReaddir env filldir (select rows) pid st)).symm
    exact ⟨_, rfl, k', hk'⟩
  obtain ⟨st, hr, k, hk⟩ := hrun
  refine ⟨st, k, hr, hk.fPos, hk.names, ?_⟩
  intro ret st' hcall htask
  obtain ⟨k', hk', -, hend⟩ := procPidentReaddir_names hlen hk hcall
  rw [hend htask, hk'.names, List.take_eq_self_iff, length_allNames]
  have := hk'.le
  omega

/-- The scan of a thread's directory with a small buffer. -/
theorem pident_scan_of_thread :
    ∃ (st : St) (k : ℕ), run (readEntries oneTaskCache (fun t => if t % 5 = 3 then -1 else 0)
      (tidBaseStuff allOptions) 1) start [(), ()] = some st ∧ st.fPos = k ∧
      (accepted st.trace).map Prod.fst = (allNames (tidBaseStuff allOptions)).take k := by
  obtain ⟨st, k, hr, hpos, hnames, -⟩ := pident_scan (List.mem_cons_of_mem _ List.mem_cons_self)
    oneTaskCache (fun t => if t % 5 = 3 then -1 else 0) 1 [(), ()]
  exact ⟨st, k, hr, hpos, hnames⟩

/-! ### Looking up -/

end Dir
end Proc
end KernelStudy
