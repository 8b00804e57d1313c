import KernelStudy.Lib.Sweep
import KernelStudy.Proc.Inode

/-!
# Listing and looking up file descriptors

`/proc/<pid>/fd` and `/proc/<pid>/fdinfo` have one entry for each open file of the
process.  `proc_readfd_common` counts `f_pos` up with the descriptors, whether they
are open or not, so that a later call goes on at the right place.  Files are opened
and closed meanwhile, and the process may exchange its whole table.

## Main definitions

* `FdEnv` — what the code finds at each moment.
* `procReadfd`, `procReadfdinfo`, `procLookupfd`, `procLookupfdinfo`,
  `tidFdRevalidate`, `procFdInfo` — the code.
* `FdScanned` — the invariant between two calls.

## Main results

* `fd_scan` — **a scan lists every descriptor that stays open exactly once, and
  none that was not open.**
* `fd_references` — **no operation of the directories keeps a reference.**
* `fd_lookup` — **which names can be looked up, and what becomes of a name that is
  cached.**
-/

namespace KernelStudy
namespace Proc
namespace Dir

/-! ### The surroundings -/

/-- The fields of a `struct file` in use here. -/
structure OpenFile where
  /-- `f_mode & FMODE_READ`. -/
  read : Bool
  /-- `f_mode & FMODE_WRITE`. -/
  write : Bool
  /-- `f_path`. -/
  path : ℕ

/-- What the code finds at each moment. -/
structure FdEnv extends CacheEnv where
  /-- `get_files_struct`. -/
  filesOf : ℕ → TaskPtr → Option ℕ
  /-- `files_fdtable(files)->max_fds`. -/
  maxFds : ℕ → ℕ → ℕ
  /-- `fcheck_files`. -/
  fcheckFiles : ℕ → ℕ → ℕ → Option OpenFile
  /-- `ptrace_may_access`. -/
  mayAccess : ℕ → TaskPtr → Bool
  /-- The result of `do_proc_readlink` for a path. -/
  doProcReadlink : ℕ → ℕ → ℤ
  /-- The result of `filldir`. -/
  filldir : ℕ → ℤ
  /-- A table has no more places than an `int` counts. -/
  maxFds_lt : ∀ t files, maxFds t files < 2 ^ 31 - 2
  /-- `fcheck_files` looks no further than the end of the table. -/
  lt_maxFds : ∀ t files fd file, fcheckFiles t files fd = some file → fd < maxFds t files

/-! ### The code -/

section

variable (env : FdEnv)

/-- `get_files_struct`. -/
def getFilesStruct (task : TaskPtr) (st : St) : Option ℕ × St :=
  match env.filesOf st.clock task with
  | none => (none, st.tick)
  | some files => (some files, st.tick.log (.get (.files files)))

/-- `tid_fd_revalidate`: the inode, unless the dentry is dropped. -/
def tidFdRevalidate (inode : Inode) (st : St) : Option Inode × St :=
  match getProcTask env.toTaskEnv inode.pid st with
  | (none, st) => (none, st)
  | (some task, st) =>
      match getFilesStruct env task st with
      | (none, st) => (none, st.log (.put (.task task)))
      | (some files, st) =>
          match env.fcheckFiles st.clock files inode.fd with
          -- the descriptor has been closed, so the dentry is dropped
          | none => (none, (st.tick.log (.put (.files files))).log (.put (.task task)))
          | some _ =>
              let st := st.tick.log (.put (.files files))
              let r := refresh env.toTaskEnv false task inode st
              (some r.1, r.2.log (.put (.task task)))

/-- The mode of the link to a file. -/
def linkMode (file : OpenFile) : UInt16 :=
  sIflnk ||| (if file.read then sIrusr ||| sIxusr else 0) |||
    (if file.write then sIwusr ||| sIxusr else 0)

/-- `proc_fd_instantiate`. -/
def procFdInstantiate (task : TaskPtr) (fd : ℕ) (st : St) : Lookup × St :=
  match procPidMakeInode env.toTaskEnv task st with
  | (none, st) => (.error enoent, st)
  | (some inode, st) =>
      let inode := { inode with fd := fd }
      match getFilesStruct env task st with
      | (none, st) => (.error enoent, st)
      | (some files, st) =>
          match env.fcheckFiles st.clock files fd with
          | none => (.error enoent, st.tick.log (.put (.files files)))
          | some file =>
              closeRace (tidFdRevalidate env { inode with mode := linkMode file }
                (st.tick.log (.put (.files files))))

/-- `proc_fdinfo_instantiate`. -/
def procFdinfoInstantiate (task : TaskPtr) (fd : ℕ) (st : St) : Lookup × St :=
  match procPidMakeInode env.toTaskEnv task st with
  | (none, st) => (.error enoent, st)
  | (some inode, st) =>
      closeRace (tidFdRevalidate env { inode with fd := fd, mode := sIfreg ||| sIrusr } st)

/-- `proc_lookupfd_common`. -/
def procLookupfdCommon (instantiate : TaskPtr → ℕ → St → Lookup × St) (pid : PidPtr)
    (name : List UInt8) (st : St) : Lookup × St :=
  match getProcTask env.toTaskEnv pid st with
  | (none, st) => (.error enoent, st)
  | (some task, st) =>
      let fd := nameToInt name
      if fd = noInt then (.error enoent, st.log (.put (.task task)))
      else
        let r := instantiate task fd st
        (r.1, r.2.log (.put (.task task)))

/-- `proc_lookupfd`. -/
def procLookupfd : PidPtr → List UInt8 → St → Lookup × St :=
  procLookupfdCommon env (procFdInstantiate env)

/-- `proc_lookupfdinfo`. -/
def procLookupfdinfo : PidPtr → List UInt8 → St → Lookup × St :=
  procLookupfdCommon env (procFdinfoInstantiate env)

/-- The loop of `proc_readfd_common`. -/
def fdLoop (instantiate : TaskPtr → ℕ → St → Lookup × St) (p : TaskPtr) (files : ℕ) :
    ℕ → ℕ → St → Option St
  | 0, _, _ => none
  | fuel + 1, fd, st =>
      if fd < env.maxFds st.clock files then
        let st := st.tick
        match env.fcheckFiles st.clock files fd with
        -- `continue` moves the offset on as well
        | none =>
            fdLoop instantiate p files fuel (u32 (fd + 1)) { st.tick with fPos := st.tick.fPos + 1 }
        | some _ =>
            let r := procFillCache env.toCacheEnv env.filldir (instantiate p fd)
              (intText (s32 fd), some p) st.tick
            -- the next call begins with the entry that was refused
            if r.1 < 0 then some r.2
            else fdLoop instantiate p files fuel (u32 (fd + 1)) { r.2 with fPos := r.2.fPos + 1 }
      else some st.tick

/-- `proc_readfd_common`: its result and the directory; `none` when the fuel runs
out. -/
def procReadfdCommon (instantiate : TaskPtr → ℕ → St → Lookup × St) (fuel : ℕ) (pid : PidPtr)
    (st : St) : Option (ℤ × St) :=
  match getProcTask env.toTaskEnv pid st with
  | (none, st) => some (enoent, st)
  | (some p, st) =>
      match fillLoop (fill env.filldir) (dotsLeft st.fPos) st with
      | (false, st) => some (0, st.log (.put (.task p)))
      | (true, st) =>
          match getFilesStruct env p st with
          | (none, st) => some (0, st.log (.put (.task p)))
          | (some files, st) =>
              (fdLoop env instantiate p files fuel (u32 (st.fPos - 2)) st).map fun st =>
                (0, (st.log (.put (.files files))).log (.put (.task p)))

/-- `proc_readfd`. -/
def procReadfd : ℕ → PidPtr → St → Option (ℤ × St) := procReadfdCommon env (procFdInstantiate env)

/-- `proc_readfdinfo`. -/
def procReadfdinfo : ℕ → PidPtr → St → Option (ℤ × St) :=
  procReadfdCommon env (procFdinfoInstantiate env)

/-- The two functions that list descriptors. -/
inductive FdDir where
  /-- `proc_readfd`. -/
  | fd
  /-- `proc_readfdinfo`. -/
  | fdinfo

/-- How a directory is listed. -/
def FdDir.read : FdDir → ℕ → PidPtr → St → Option (ℤ × St)
  | .fd => procReadfd env
  | .fdinfo => procReadfdinfo env

/-- How its entries are made. -/
def FdDir.instantiate : FdDir → TaskPtr → ℕ → St → Lookup × St
  | .fd => procFdInstantiate env
  | .fdinfo => procFdinfoInstantiate env

/-- `proc_fd_info`: the file of an inode.  A caller that wants its path gets a
reference to that. -/
def procFdInfo (wantPath : Bool) (inode : Inode) (st : St) : Except ℤ OpenFile × St :=
  match getProcTask env.toTaskEnv inode.pid st with
  | (none, st) => (.error enoent, st)
  | (some task, st) =>
      let r := getFilesStruct env task st
      -- the table keeps the files, the task is not needed any more
      let st := r.2.log (.put (.task task))
      match r.1 with
      | none => (.error enoent, st)
      | some files =>
          match env.fcheckFiles st.clock files inode.fd with
          | none => (.error enoent, st.tick.log (.put (.files files)))
          | some file =>
              let st := if wantPath then st.tick.log (.get (.path file.path)) else st.tick
              (.ok file, st.log (.put (.files files)))

/-- `proc_fd_link`. -/
def procFdLink (inode : Inode) (st : St) : Except ℤ OpenFile × St := procFdInfo env true inode st

/-- `proc_fd_access_allowed`. -/
def procFdAccessAllowed (inode : Inode) (st : St) : Bool × St :=
  match getProcTask env.toTaskEnv inode.pid st with
  | (none, st) => (false, st)
  | (some task, st) => (env.mayAccess st.clock task, st.tick.log (.put (.task task)))

/-- `proc_pid_readlink`, for the link of a descriptor. -/
def procPidReadlink (inode : Inode) (st : St) : ℤ × St :=
  match procFdAccessAllowed env inode st with
  | (false, st) => (eacces, st)
  | (true, st) =>
      match procFdLink env inode st with
      | (.error e, st) => (e, st)
      | (.ok file, st) =>
          (env.doProcReadlink st.clock file.path, st.tick.log (.put (.path file.path)))

end

/-! ### What making an inode keeps -/

variable {env : FdEnv} {st st' : St} {held : Multiset Thing}
  {instantiate : TaskPtr → ℕ → St → Lookup × St}

theorem getFilesStruct_owes (env : FdEnv) (h : Owes st held) (task : TaskPtr) :
    Owes (getFilesStruct env task st).2
      (holding ((getFilesStruct env task st).1.map .files) held) := by
  unfold getFilesStruct
  split
  · exact h.tick
  · exact h.tick.get _

theorem getFilesStruct_frame (env : FdEnv) (task : TaskPtr) (st : St) :
    Frame st (getFilesStruct env task st).2 := by
  unfold getFilesStruct
  split
  · exact (Frame.refl st).tick
  · exact (Frame.refl st).tick.get _

theorem tidFdRevalidate_owes (env : FdEnv) (h : Owes st held) (inode : Inode) :
    Owes (tidFdRevalidate env inode st).2 held := by
  have hget := getProcTask_owes env.toTaskEnv h inode.pid
  unfold tidFdRevalidate
  split
  · next st₁ heq =>
    rw [heq] at hget
    exact hget
  · next task st₁ heq =>
    rw [heq] at hget
    have hfiles := getFilesStruct_owes env hget task
    split
    · next st₂ heq₂ =>
      rw [heq₂] at hfiles
      exact hfiles.put
    · next files st₂ heq₂ =>
      rw [heq₂] at hfiles
      split
      · exact hfiles.tick.put.put
      · exact hfiles.tick.put.tick.tick.put

theorem tidFdRevalidate_frame (env : FdEnv) (inode : Inode) (st : St) :
    Frame st (tidFdRevalidate env inode st).2 := by
  have hget := getProcTask_frame env.toTaskEnv inode.pid st
  unfold tidFdRevalidate
  split
  · next st₁ heq =>
    rw [heq] at hget
    exact hget
  · next task st₁ heq =>
    rw [heq] at hget
    have hfiles := hget.trans (getFilesStruct_frame env task st₁)
    split
    · next st₂ heq₂ =>
      rw [heq₂] at hfiles
      exact hfiles.put _
    · next files st₂ heq₂ =>
      rw [heq₂] at hfiles
      split
      · exact (hfiles.tick.put _).put _
      · exact (hfiles.tick.put _).tick.tick.put _

theorem procFdInstantiate_keepsNone (env : FdEnv) (task : TaskPtr) (fd : ℕ) :
    KeepsNone (procFdInstantiate env task fd) where
  frame := by
    intro st
    have hmake := procPidMakeInode_frame env.toTaskEnv task st
    unfold procFdInstantiate
    split
    · next st₁ heq =>
      rw [heq] at hmake
      exact hmake
    · next inode st₁ heq =>
      rw [heq] at hmake
      have hfiles := hmake.trans (getFilesStruct_frame env task st₁)
      dsimp only
      split
      · next st₂ heq₂ =>
        rw [heq₂] at hfiles
        exact hfiles
      · next files st₂ heq₂ =>
        rw [heq₂] at hfiles
        split
        · exact hfiles.tick.put _
        · rw [closeRace_snd]
          exact (hfiles.tick.put _).trans (tidFdRevalidate_frame env _ _)
  owes := by
    intro st held h
    have hmake := procPidMakeInode_owes env.toTaskEnv h task
    unfold procFdInstantiate
    split
    · next st₁ heq =>
      rw [heq] at hmake
      exact hmake
    · next inode st₁ heq =>
      rw [heq] at hmake
      have hfiles := getFilesStruct_owes env hmake task
      dsimp only
      split
      · next st₂ heq₂ =>
        rw [heq₂] at hfiles
        exact hfiles
      · next files st₂ heq₂ =>
        rw [heq₂] at hfiles
        split
        · exact hfiles.tick.put
        · rw [closeRace_snd]
          exact tidFdRevalidate_owes env hfiles.tick.put _

theorem procFdinfoInstantiate_keepsNone (env : FdEnv) (task : TaskPtr) (fd : ℕ) :
    KeepsNone (procFdinfoInstantiate env task fd) where
  frame := by
    intro st
    have hmake := procPidMakeInode_frame env.toTaskEnv task st
    unfold procFdinfoInstantiate
    split
    · next st₁ heq =>
      rw [heq] at hmake
      exact hmake
    · next inode st₁ heq =>
      rw [heq] at hmake
      rw [closeRace_snd]
      exact hmake.trans (tidFdRevalidate_frame env _ _)
  owes := by
    intro st held h
    have hmake := procPidMakeInode_owes env.toTaskEnv h task
    unfold procFdinfoInstantiate
    split
    · next st₁ heq =>
      rw [heq] at hmake
      exact hmake
    · next inode st₁ heq =>
      rw [heq] at hmake
      rw [closeRace_snd]
      exact tidFdRevalidate_owes env hmake _

theorem FdDir.instantiate_keepsNone (env : FdEnv) (d : FdDir) (task : TaskPtr) (fd : ℕ) :
    KeepsNone (d.instantiate env task fd) := by
  cases d with
  | fd => exact procFdInstantiate_keepsNone env task fd
  | fdinfo => exact procFdinfoInstantiate_keepsNone env task fd

theorem FdDir.read_eq (env : FdEnv) (d : FdDir) :
    d.read env = procReadfdCommon env (d.instantiate env) := by
  cases d with
  | fd => rfl
  | fdinfo => rfl

/-! ### A scan -/

/-- The entry is that of the descriptor. -/
def ShowsFd (e : Entry) (fd : ℕ) : Prop := e.1 = intText fd

/-- A table of the process. -/
def TableOf (env : FdEnv) (pid : PidPtr) (files : ℕ) : Prop :=
  ∃ t p t', env.pidTask t pid = some p ∧ env.filesOf t' p = some files

/-- The descriptor has been open all the time, in every table of the process. -/
def StaysOpen (env : FdEnv) (pid : PidPtr) (now fd : ℕ) : Prop :=
  ∀ t < now, ∀ files, TableOf env pid files → (env.fcheckFiles t files fd).isSome = true

/-- The descriptor has been open once, in a table of the process. -/
def WasOpen (env : FdEnv) (pid : PidPtr) (now fd : ℕ) : Prop :=
  ∃ t < now, ∃ files, TableOf env pid files ∧ (env.fcheckFiles t files fd).isSome = true

/-- The first two entries and the descriptors `ns` below `pos` have been listed, and
`f_pos` stands at `pos`. -/
structure FdScanned (env : FdEnv) (pid : PidPtr) (st : St) (ns : List ℕ) (pos : ℕ) : Prop where
  swept : Swept {fd | StaysOpen env pid st.clock fd} ns pos
  seen : ∀ fd ∈ ns, WasOpen env pid st.clock fd
  shown : ∃ es, accepted st.trace = dots ++ es ∧ List.Forall₂ ShowsFd es ns
  fPos : st.fPos = pos + 2
  small : pos < 2 ^ 31 - 2

variable {ns : List ℕ} {pos fd files : ℕ} {p : TaskPtr} {pid : PidPtr}

theorem StaysOpen.earlier {now now' : ℕ} (h : StaysOpen env pid now' fd) (hle : now ≤ now') :
    StaysOpen env pid now fd :=
  fun t ht => h t (ht.trans_le hle)

theorem FdScanned.swept_later (h : FdScanned env pid st ns pos) {now : ℕ} (hle : st.clock ≤ now) :
    Swept {fd | StaysOpen env pid now fd} ns pos :=
  h.swept.mono fun _ hfd => StaysOpen.earlier hfd hle

theorem FdScanned.seen_later (h : FdScanned env pid st ns pos) {now : ℕ} (hle : st.clock ≤ now) :
    ∀ fd ∈ ns, WasOpen env pid now fd := by
  intro fd hfd
  obtain ⟨t, ht, hopen⟩ := h.seen fd hfd
  exact ⟨t, ht.trans_le hle, hopen⟩

theorem FdScanned.later (h : FdScanned env pid st ns pos) (hclock : st.clock ≤ st'.clock)
    (hpos : st'.fPos = st.fPos) (hacc : accepted st'.trace = accepted st.trace) :
    FdScanned env pid st' ns pos where
  swept := h.swept_later hclock
  seen := h.seen_later hclock
  shown := by
    rw [hacc]
    exact h.shown
  fPos := hpos.trans h.fPos
  small := h.small

/-- A descriptor that is not open is passed. -/
theorem FdScanned.skip (h : FdScanned env pid st ns pos) (hclock : st.clock ≤ st'.clock)
    (hclosed : ¬ StaysOpen env pid st'.clock pos) (hsmall : pos + 1 < 2 ^ 31 - 2)
    (hpos : st'.fPos = st.fPos + 1) (hacc : accepted st'.trace = accepted st.trace) :
    FdScanned env pid st' ns (pos + 1) where
  swept := by
    refine (h.swept_later hclock).skip (Nat.le_succ _) ?_
    intro fd hle hlt
    have hfd : fd = pos := by omega
    rw [hfd]
    exact hclosed
  seen := h.seen_later hclock
  shown := by
    rw [hacc]
    exact h.shown
  fPos := by
    rw [hpos, h.fPos]
    push_cast
    ring
  small := hsmall

/-- A descriptor that is open is listed. -/
theorem FdScanned.emit (h : FdScanned env pid st ns pos) (hclock : st.clock ≤ st'.clock)
    (hopen : WasOpen env pid st'.clock pos)
    (hsmall : pos + 1 < 2 ^ 31 - 2) (hpos : st'.fPos = st.fPos + 1) {e : Entry}
    (he : ShowsFd e pos) (hacc : accepted st'.trace = accepted st.trace ++ [e]) :
    FdScanned env pid st' (ns ++ [pos]) (pos + 1) where
  swept := by
    refine (h.swept_later hclock).emit (Nat.lt_succ_self _) ?_
    intro fd hlt hlt'
    omega
  seen := by
    intro fd hfd
    rcases List.mem_append.mp hfd with hfd | hfd
    · exact h.seen_later hclock fd hfd
    · rw [List.mem_singleton.mp hfd]
      exact hopen
  shown := by
    obtain ⟨es, hes, hshows⟩ := h.shown
    refine ⟨es ++ [e], ?_, List.rel_append hshows (.cons he .nil)⟩
    rw [hacc, hes, List.append_assoc]
  fPos := by
    rw [hpos, h.fPos]
    push_cast
    ring
  small := hsmall

/-- All that has stayed open is listed. -/
def AllListed (env : FdEnv) (pid : PidPtr) (st : St) (ns : List ℕ) : Prop :=
  ∀ fd, StaysOpen env pid st.clock fd → fd ∈ ns

theorem u32_next (h : fd + 1 < 2 ^ 31 - 2) : u32 ((fd : ℤ) + 1) = fd + 1 := by
  rw [show (fd : ℤ) + 1 = ((fd + 1 : ℕ) : ℤ) by push_cast; rfl]
  exact u32_of_lt (by omega)

/-- A closed descriptor is passed over. -/
theorem FdScanned.closed (h : FdScanned env pid st ns pos) (hfiles : TableOf env pid files)
    (hsmall : pos + 1 < 2 ^ 31 - 2) (hfile : env.fcheckFiles (st.clock + 1) files pos = none) :
    FdScanned env pid { st.tick.tick with fPos := st.tick.tick.fPos + 1 } ns (pos + 1) := by
  refine h.skip (Nat.le_add_right _ 2) ?_ hsmall rfl rfl
  intro hstays
  have hopen := hstays (st.clock + 1) (Nat.lt_succ_self _) files hfiles
  rw [hfile] at hopen
  cases hopen

/-- An open descriptor is listed, if it is accepted. -/
theorem FdScanned.opened {file : OpenFile} (h : FdScanned env pid st ns pos)
    (hfiles : TableOf env pid files) (hsmall : pos + 1 < 2 ^ 31 - 2)
    (hfile : env.fcheckFiles (st.clock + 1) files pos = some file) {r : ℤ × St}
    (hr : Offers (intText (s32 pos), some p) st.tick.tick r) (haccepted : ¬ r.1 < 0) :
    FdScanned env pid { r.2 with fPos := r.2.fPos + 1 } (ns ++ [pos]) (pos + 1) := by
  have hopen : (env.fcheckFiles (st.clock + 1) files pos).isSome = true := by
    rw [hfile]
    rfl
  have hclock : st.clock + 2 < r.2.clock := hr.clock
  have hacc := hr.accepted_eq
  rw [if_neg haccepted] at hacc
  refine h.emit ?_ ⟨st.clock + 1, ?_, files, hfiles, hopen⟩ hsmall ?_ ?_ hacc
  · dsimp only
    omega
  · dsimp only
    omega
  · dsimp only
    rw [hr.fPos]
    rfl
  · rw [ShowsFd, s32_of_lt (by omega)]

/-- At the end of the table, nothing that has stayed open is missing. -/
theorem FdScanned.allListed (h : FdScanned env pid st ns pos) (hfiles : TableOf env pid files)
    (hend : env.maxFds st.clock files ≤ pos) : AllListed env pid st.tick ns := by
  intro fd hstays
  have hopen := hstays st.clock (Nat.lt_succ_self _) files hfiles
  obtain ⟨file, hfile⟩ := Option.isSome_iff_exists.mp hopen
  have hlt := env.lt_maxFds _ _ _ _ hfile
  exact (h.swept_later (Nat.le_succ _)).covers fd hstays (by omega)

/-- **The loop ends, and lists what stays open.**  It offers something, or it has
come to the end of the table. -/
theorem fdLoop_spec {N : ℕ} (hN : ∀ t files, env.maxFds t files ≤ N)
    (hkeeps : ∀ task fd, KeepsNone (instantiate task fd)) (hfiles : TableOf env pid files) :
    ∀ (fuel pos : ℕ) (st : St) (ns : List ℕ), FdScanned env pid st ns pos → 0 < fuel →
      N < fuel + pos →
      ∃ st' ns' pos', fdLoop env instantiate p files fuel pos st = some st' ∧
        FdScanned env pid st' ns' pos' ∧
        st.clock ≤ st'.clock ∧ (offered st.trace).length ≤ (offered st'.trace).length ∧
        ((offered st.trace).length < (offered st'.trace).length ∨ AllListed env pid st' ns') := by
  intro fuel
  induction fuel with
  | zero => intro pos st ns _ h0; omega
  | succ fuel ih =>
    intro pos st ns hs _ hfuel
    rw [fdLoop]
    by_cases hend : pos < env.maxFds st.clock files
    · have hsmall : pos + 1 < 2 ^ 31 - 2 := by
        have := env.maxFds_lt st.clock files
        omega
      have hmore := (hend.trans_le (hN _ _))
      rw [if_pos hend, u32_next hsmall]
      dsimp only
      cases hfile : env.fcheckFiles st.tick.clock files pos with
      | none =>
        -- a closed descriptor moves the position on as well
        obtain ⟨st', ns', pos', hloop, hs'', hclock, hoff, hout⟩ :=
          ih (pos + 1) _ ns (hs.closed hfiles hsmall hfile) (by omega) (by omega)
        have hclock' : st.clock + 2 ≤ st'.clock := hclock
        exact ⟨st', ns', pos', hloop, hs'', by omega, hoff, hout⟩
      | some file =>
        dsimp only
        have hr := procFillCache_offers env.toCacheEnv env.filldir (hkeeps p pos)
          (intText (s32 pos), some p) st.tick.tick
        generalize procFillCache env.toCacheEnv env.filldir (instantiate p pos)
          (intText (s32 pos), some p) st.tick.tick = r at hr ⊢
        have hclock : st.clock + 2 < r.2.clock := hr.clock
        have hoff : (offered r.2.trace).length = (offered st.trace).length + 1 := by
          rw [hr.offered_eq, List.length_append, List.length_singleton]
          rfl
        split
        · next hrefused =>
          have hacc := hr.accepted_eq
          rw [if_pos hrefused, List.append_nil] at hacc
          exact ⟨r.2, ns, pos, rfl, hs.later (by omega) hr.fPos hacc, by omega, by omega,
            Or.inl (by omega)⟩
        · next haccepted =>
          obtain ⟨st', ns', pos', hloop, hs'', hclock', hoff', hout⟩ :=
            ih (pos + 1) _ _ (hs.opened hfiles hsmall hfile hr haccepted) (by omega) (by omega)
          dsimp only at hclock' hoff' hout
          exact ⟨st', ns', pos', hloop, hs'', by omega, by omega, Or.inl (by omega)⟩
    · rw [if_neg hend]
      exact ⟨st.tick, ns, pos, rfl, hs.later (Nat.le_succ _) rfl rfl, Nat.le_succ _, le_rfl,
        Or.inr (hs.allListed hfiles (not_lt.mp hend))⟩

/-! ### One call -/

/-- The invariant between two calls. -/
def FdResumes (env : FdEnv) (pid : PidPtr) (st : St) : Prop :=
  (∃ d < 2, accepted st.trace = dots.take d ∧ st.fPos = d) ∨ ∃ ns pos, FdScanned env pid st ns pos

theorem fdResumes_start : FdResumes env pid start := Or.inl ⟨0, by decide, rfl, rfl⟩

theorem FdResumes.later (h : FdResumes env pid st) (hclock : st.clock ≤ st'.clock)
    (hpos : st'.fPos = st.fPos) (hacc : accepted st'.trace = accepted st.trace) :
    FdResumes env pid st' := by
  rcases h with ⟨d, hd, h₁, h₂⟩ | ⟨ns, pos, hs⟩
  · exact Or.inl ⟨d, hd, hacc.trans h₁, hpos.trans h₂⟩
  · exact Or.inr ⟨ns, pos, hs.later hclock hpos hacc⟩

theorem fdScanned_dots (hacc : accepted st.trace = dots) (hpos : st.fPos = 2) :
    FdScanned env pid st [] 0 where
  swept := swept_nil fun _ _ => Nat.zero_le _
  seen := fun _ hfd => absurd hfd List.not_mem_nil
  shown := ⟨[], hacc.trans (List.append_nil _).symm, .nil⟩
  fPos := hpos
  small := by decide

theorem dotsLeft_of_fdScanned (hs : FdScanned env pid st ns pos) : dotsLeft st.fPos = [] := by
  have hsmall := hs.small
  have hpos : st.fPos = ((2 + pos : ℕ) : ℤ) := by
    rw [hs.fPos]
    push_cast
    ring
  rw [hpos, dotsLeft_of_lt (by omega)]
  exact List.drop_eq_nil_of_le (Nat.le_add_right 2 _)

/-- The first two entries come first. -/
theorem dots_fdResumes (h : FdResumes env pid st) {ok : Bool} {st₁ : St}
    (hdots : fillLoop (fill env.filldir) (dotsLeft st.fPos) st = (ok, st₁)) :
    st.clock ≤ st₁.clock ∧ FdResumes env pid st₁ ∧
      (ok = true → ∃ ns pos, FdScanned env pid st₁ ns pos) := by
  rcases h with ⟨d, hd, hacc, hpos⟩ | ⟨ns, pos, hs⟩
  · obtain ⟨d', hd', hacc₁, hpos₁, -, hclock, hok⟩ := fillLoop_dots (by omega) hacc hpos hdots
    have hdone : d' = 2 → ∃ ns pos, FdScanned env pid st₁ ns pos := by
      rintro rfl
      exact ⟨[], 0, fdScanned_dots hacc₁ hpos₁⟩
    refine ⟨hclock, ?_, fun hend => hdone (hok.mp hend)⟩
    rcases Nat.lt_or_ge d' 2 with hlt | hge
    · exact Or.inl ⟨d', hlt, hacc₁, hpos₁⟩
    · exact Or.inr (hdone (by omega))
  · rw [dotsLeft_of_fdScanned hs, fillLoop] at hdots
    cases hdots
    exact ⟨le_rfl, Or.inr ⟨ns, pos, hs⟩, fun _ => ⟨ns, pos, hs⟩⟩

theorem u32_place (hs : FdScanned env pid st ns pos) : u32 (st.fPos - 2) = pos := by
  have hsmall := hs.small
  rw [hs.fPos, add_sub_cancel_right]
  exact u32_of_lt (by omega)

/-- The process has a table, all the time. -/
def HasTable (env : FdEnv) (pid : PidPtr) : Prop :=
  ∀ t, ∃ p, env.pidTask t pid = some p ∧ ∀ t', (env.filesOf t' p).isSome = true

/-- The ways through `proc_readfd_common`. -/
inductive ReadFdWay (env : FdEnv) (instantiate : TaskPtr → ℕ → St → Lookup × St) (fuel : ℕ)
    (pid : PidPtr) (st : St) : Option (ℤ × St) → Prop
  | noTask : env.pidTask st.clock pid = none →
      ReadFdWay env instantiate fuel pid st (some (enoent, st.tick))
  | refused (p : TaskPtr) (st₁ : St) : env.pidTask st.clock pid = some p →
      fillLoop (fill env.filldir) (dotsLeft st.fPos) (st.tick.log (.get (.task p))) = (false, st₁) →
      ReadFdWay env instantiate fuel pid st (some (0, st₁.log (.put (.task p))))
  | noTable (p : TaskPtr) (st₁ : St) : env.pidTask st.clock pid = some p →
      fillLoop (fill env.filldir) (dotsLeft st.fPos) (st.tick.log (.get (.task p))) = (true, st₁) →
      env.filesOf st₁.clock p = none →
      ReadFdWay env instantiate fuel pid st (some (0, st₁.tick.log (.put (.task p))))
  | table (p : TaskPtr) (st₁ : St) (files : ℕ) : env.pidTask st.clock pid = some p →
      fillLoop (fill env.filldir) (dotsLeft st.fPos) (st.tick.log (.get (.task p))) = (true, st₁) →
      env.filesOf st₁.clock p = some files →
      ReadFdWay env instantiate fuel pid st
        ((fdLoop env instantiate p files fuel (u32 (st₁.fPos - 2))
          (st₁.tick.log (.get (.files files)))).map fun st =>
            (0, (st.log (.put (.files files))).log (.put (.task p))))

theorem readFdWay (env : FdEnv) (instantiate : TaskPtr → ℕ → St → Lookup × St) (fuel : ℕ)
    (pid : PidPtr) (st : St) :
    ReadFdWay env instantiate fuel pid st (procReadfdCommon env instantiate fuel pid st) := by
  unfold procReadfdCommon getProcTask
  cases htask : env.pidTask st.clock pid with
  | none => exact .noTask htask
  | some p =>
    dsimp only
    rcases hdots : fillLoop (fill env.filldir) (dotsLeft st.fPos) (st.tick.log (.get (.task p))) with
      ⟨ok, st₁⟩
    simp only [log_fPos, tick_fPos, hdots]
    cases ok with
    | false => exact .refused p st₁ htask hdots
    | true =>
      dsimp only [getFilesStruct]
      cases hfiles : env.filesOf st₁.clock p with
      | none => exact .noTable p st₁ htask hdots hfiles
      | some files => exact .table p st₁ files htask hdots hfiles

/-- **A call ends and keeps the invariant**; if it offers nothing although there is
a table, all is listed. -/
theorem procReadfdCommon_spec {N fuel : ℕ} (hN : ∀ t files, env.maxFds t files ≤ N)
    (hkeeps : ∀ task fd, KeepsNone (instantiate task fd)) (hfuel : N < fuel)
    (hI : FdResumes env pid st) :
    ∃ ret st', procReadfdCommon env instantiate fuel pid st = some (ret, st') ∧
      FdResumes env pid st' ∧
      (HasTable env pid → offered st'.trace = offered st.trace →
        ∃ ns pos, FdScanned env pid st' ns pos ∧ AllListed env pid st' ns) := by
  have hway := readFdWay env instantiate fuel pid st
  have hstart : ∀ p, FdResumes env pid (st.tick.log (.get (.task p))) :=
    fun p => hI.later (Nat.le_succ _) rfl (by simp)
  generalize procReadfdCommon env instantiate fuel pid st = out at hway
  cases hway with
  | noTask htask =>
    refine ⟨_, _, rfl, hI.later (Nat.le_succ _) rfl rfl, ?_⟩
    intro htable _
    obtain ⟨p, hp, -⟩ := htable st.clock
    rw [htask] at hp
    cases hp
  | refused p st₁ htask hdots =>
    obtain ⟨hclock, hI₁, -⟩ := dots_fdResumes (hstart p) hdots
    refine ⟨_, _, rfl, hI₁.later le_rfl rfl (by simp), ?_⟩
    intro _ hoff
    -- something was refused, hence offered
    have hmore := offered_fillDots env.filldir st.fPos (st.tick.log (.get (.task p)))
    cases hleft : dotsLeft st.fPos with
    | nil =>
      rw [hleft] at hdots
      cases hdots
    | cons e es =>
      have hlen := congrArg List.length hoff
      rw [hdots, hleft] at hmore
      simp at hmore hlen
      omega
  | noTable p st₁ htask hdots hfiles =>
    obtain ⟨hclock, hI₁, -⟩ := dots_fdResumes (hstart p) hdots
    refine ⟨_, _, rfl, hI₁.later (Nat.le_succ _) rfl (by simp), ?_⟩
    intro htable _
    obtain ⟨p', hp', hall⟩ := htable st.clock
    rw [htask, Option.some.injEq] at hp'
    have hsome := hall st₁.clock
    rw [← hp', hfiles] at hsome
    cases hsome
  | table p st₁ files htask hdots hfiles =>
    obtain ⟨hclock, -, hscanned⟩ := dots_fdResumes (hstart p) hdots
    obtain ⟨ns, pos, hs⟩ := hscanned rfl
    have hs₁ : FdScanned env pid (st₁.tick.log (.get (.files files))) ns pos :=
      hs.later (Nat.le_succ _) rfl (by simp)
    obtain ⟨st', ns', pos', hloop, hs', hclock', hoff, hout⟩ :=
      fdLoop_spec (p := p) hN hkeeps ⟨st.clock, p, st₁.clock, htask, hfiles⟩ fuel pos _ ns hs₁
        (by omega) (by omega)
    have hend : FdScanned env pid ((st'.log (.put (.files files))).log (.put (.task p))) ns' pos' :=
      hs'.later le_rfl rfl (by simp)
    rw [u32_place hs, hloop]
    refine ⟨_, _, rfl, Or.inr ⟨ns', pos', hend⟩, ?_⟩
    intro _ hsame
    refine ⟨ns', pos', hend, ?_⟩
    rcases hout with hmore | hall
    · have hmore' := offered_fillDots env.filldir st.fPos (st.tick.log (.get (.task p)))
      have hlen := congrArg List.length hsame
      rw [hdots] at hmore'
      simp at hmore hmore' hlen
      omega
    · exact hall

/-! ### A whole scan -/

/-- A call, as a step. -/
def readFds (env : FdEnv) (d : FdDir) (fuel : ℕ) (pid : PidPtr) (st : St) (_ : Unit) : Option St :=
  (d.read env fuel pid st).map Prod.snd

/-- **A scan lists every descriptor that stays open exactly once**, and none that
was not open, however often it is cut short and whatever is opened and closed
meanwhile: the descriptors come in ascending order, and when a call finds nothing
more to offer, none of those that stayed open is missing. -/
theorem fd_scan (env : FdEnv) (d : FdDir) (pid : PidPtr) {N fuel : ℕ}
    (hN : ∀ t files, env.maxFds t files ≤ N) (hfuel : N < fuel) (calls : List Unit) :
    ∃ st, run (readFds env d fuel pid) start calls = some st ∧
      (accepted st.trace <+: dots ∨ ∃ es ns, accepted st.trace = dots ++ es ∧
        List.Forall₂ ShowsFd es ns ∧ ns.Pairwise (· < ·) ∧
        (∀ fd ∈ ns, WasOpen env pid st.clock fd) ∧
        ∀ fd : ℕ, StaysOpen env pid st.clock fd → fd + 2 < st.fPos → ns.count fd = 1) ∧
      ∀ ret st', d.read env fuel pid st = some (ret, st') → HasTable env pid →
        offered st'.trace = offered st.trace →
        ∃ es ns, accepted st'.trace = dots ++ es ∧ List.Forall₂ ShowsFd es ns ∧
          ∀ fd, StaysOpen env pid st'.clock fd → ns.count fd = 1 := by
  have hrun : ∃ st, run (readFds env d fuel pid) start calls = some st ∧ FdResumes env pid st := by
    refine run_total (P := fun _ => True) ?_ calls start fdResumes_start fun _ _ => trivial
    intro st _ hI _
    obtain ⟨ret, st', hcall, hI', -⟩ :=
      procReadfdCommon_spec hN (d.instantiate_keepsNone env) hfuel hI
    exact ⟨st', by rw [readFds, d.read_eq, hcall]; rfl, hI'⟩
  obtain ⟨st, hr, hI⟩ := hrun
  refine ⟨st, hr, ?_, ?_⟩
  · rcases hI with ⟨d, -, hacc, -⟩ | ⟨ns, pos, hs⟩
    · left
      rw [hacc]
      exact List.take_prefix d dots
    · obtain ⟨es, hes, hshows⟩ := hs.shown
      refine Or.inr ⟨es, ns, hes, hshows, hs.swept.sorted, hs.seen, ?_⟩
      intro fd hstays hlt
      rw [hs.fPos] at hlt
      exact hs.swept.count_eq_one hstays (by omega)
  · intro ret st' hcall htable hoff
    obtain ⟨ret', st'', hcall', -, hend⟩ :=
      procReadfdCommon_spec hN (d.instantiate_keepsNone env) hfuel hI
    rw [← d.read_eq, hcall, Option.some.injEq, Prod.mk.injEq] at hcall'
    rw [← hcall'.2] at hend
    obtain ⟨ns, pos, hs, hall⟩ := hend htable hoff
    obtain ⟨es, hes, hshows⟩ := hs.shown
    refine ⟨es, ns, hes, hshows, ?_⟩
    intro fd hstays
    exact List.count_eq_one_of_mem (hs.swept.sorted.imp ne_of_lt) (hall fd hstays)

/-- A process with three files, one of which is opened and closed again and again,
read with a small buffer. -/
def threeFiles : FdEnv where
  toCacheEnv := oneTaskCache
  filesOf := fun _ _ => some 5
  maxFds := fun _ _ => 4
  fcheckFiles := fun t _ fd =>
    if fd = 0 ∨ fd = 2 ∨ fd = 3 ∧ t % 3 = 0 then some ⟨true, decide (fd = 2), fd⟩ else none
  mayAccess := fun _ _ => true
  doProcReadlink := fun _ _ => 4
  filldir := fun t => if t % 5 = 3 then -1 else 0
  maxFds_lt := by
    intro _ _
    norm_num
  lt_maxFds := by
    intro t files fd file h
    split at h
    · next hfd => omega
    · cases h

theorem threeFiles_staysOpen (now : ℕ) : StaysOpen threeFiles 1 now 2 := by
  intro t _ files _
  rfl

/-- The scan of the three files, in four calls. -/
theorem fd_scan_of_three :
    (∃ st, run (readFds threeFiles .fd 5 1) start [(), (), (), ()] = some st ∧
      (accepted st.trace <+: dots ∨ ∃ es ns, accepted st.trace = dots ++ es ∧
        List.Forall₂ ShowsFd es ns ∧ ns.Pairwise (· < ·) ∧
        (∀ fd ∈ ns, WasOpen threeFiles 1 st.clock fd) ∧
        ∀ fd : ℕ, StaysOpen threeFiles 1 st.clock fd → fd + 2 < st.fPos → ns.count fd = 1)) ∧
    StaysOpen threeFiles 1 20 2 := by
  obtain ⟨st, hr, hlisted, -⟩ := fd_scan threeFiles .fd 1 (fun _ _ => le_rfl) (by decide : 4 < 5)
    [(), (), (), ()]
  exact ⟨⟨st, hr, hlisted⟩, threeFiles_staysOpen 20⟩

/-! ### References -/

theorem fdLoop_owes (hkeeps : ∀ task fd, KeepsNone (instantiate task fd)) :
    ∀ (fuel fd : ℕ) (st st' : St), Owes st held →
      fdLoop env instantiate p files fuel fd st = some st' → Owes st' held := by
  intro fuel
  induction fuel with
  | zero => intro fd st st' _ hloop; cases hloop
  | succ fuel ih =>
    intro fd st st' h hloop
    rw [fdLoop] at hloop
    dsimp only at hloop
    split at hloop
    · split at hloop
      · exact ih _ _ _ (h.tick.tick.seek _) hloop
      · have hfill := (procFillCache_offers env.toCacheEnv env.filldir (hkeeps p fd)
          (intText (s32 fd), some p) st.tick.tick).owes held h.tick.tick
        split at hloop
        · rw [Option.some.injEq] at hloop
          exact hloop ▸ hfill
        · exact ih _ _ _ (hfill.seek _) hloop
    · rw [Option.some.injEq] at hloop
      exact hloop ▸ h.tick

theorem procReadfdCommon_owes (hkeeps : ∀ task fd, KeepsNone (instantiate task fd)) {fuel : ℕ}
    {ret : ℤ} (h : Owes st held)
    (hcall : procReadfdCommon env instantiate fuel pid st = some (ret, st')) : Owes st' held := by
  have hway := readFdWay env instantiate fuel pid st
  have hdots : ∀ p ok st₁, fillLoop (fill env.filldir) (dotsLeft st.fPos)
      (st.tick.log (.get (.task p))) = (ok, st₁) → Owes st₁ (.task p ::ₘ held) := by
    intro p ok st₁ heq
    have hfill := (h.tick.get (.task p)).fillDots env.filldir st.fPos
    rw [heq] at hfill
    exact hfill
  rw [hcall] at hway
  generalize hout : some (ret, st') = out at hway
  cases hway with
  | noTask htask =>
    cases hout
    exact h.tick
  | refused p st₁ htask hfill =>
    cases hout
    exact (hdots p _ st₁ hfill).put
  | noTable p st₁ htask hfill hfiles =>
    cases hout
    exact (hdots p _ st₁ hfill).tick.put
  | table p st₁ files htask hfill hfiles =>
    obtain ⟨st₂, hloop, hst'⟩ := Option.map_eq_some_iff.mp hout.symm
    cases hst'
    exact (fdLoop_owes hkeeps fuel _ _ _ ((hdots p _ st₁ hfill).tick.get _) hloop).put.put

theorem procLookupfdCommon_owes (env : FdEnv)
    (hkeeps : ∀ task fd, KeepsNone (instantiate task fd)) (h : Owes st held) (pid : PidPtr)
    (name : List UInt8) :
    Owes (procLookupfdCommon env instantiate pid name st).2 held := by
  have hget := getProcTask_owes env.toTaskEnv h pid
  unfold procLookupfdCommon
  split
  · next st₁ heq =>
    rw [heq] at hget
    exact hget
  · next task st₁ heq =>
    rw [heq] at hget
    dsimp only
    split
    · exact hget.put
    · exact ((hkeeps task _).owes _ _ hget).put

/-- The path that `proc_fd_info` hands on, if it is wanted. -/
def wantedPath (wantPath : Bool) : Except ℤ OpenFile → Option Thing
  | .error _ => none
  | .ok file => if wantPath then some (.path file.path) else none

theorem wantedPath_false (r : Except ℤ OpenFile) : wantedPath false r = none := by
  cases r with
  | error e => rfl
  | ok file => rfl

/-- `proc_fd_info` keeps only the reference to the path that is wanted. -/
theorem procFdInfo_owes (env : FdEnv) (h : Owes st held) (wantPath : Bool) (inode : Inode) :
    Owes (procFdInfo env wantPath inode st).2
      (holding (wantedPath wantPath (procFdInfo env wantPath inode st).1) held) := by
  have hget := getProcTask_owes env.toTaskEnv h inode.pid
  unfold procFdInfo
  split
  · next st₁ heq =>
    rw [heq] at hget
    exact hget
  · next task st₁ heq =>
    rw [heq] at hget
    have hfiles := getFilesStruct_owes env hget task
    dsimp only at hfiles ⊢
    generalize getFilesStruct env task st₁ = r at hfiles ⊢
    rcases r with ⟨found, st₂⟩
    cases found with
    | none => exact hfiles.put
    | some files =>
      have hput : Owes st₂ (.task task ::ₘ .files files ::ₘ held) := by
        rw [Multiset.cons_swap]
        exact hfiles
      dsimp only
      split
      · exact hput.put.tick.put
      · next file hfile =>
        cases wantPath with
        | false => exact hput.put.tick.put
        | true =>
          have hpath := hput.put.tick.get (.path file.path)
          rw [Multiset.cons_swap] at hpath
          exact hpath.put

theorem procFdAccessAllowed_owes (env : FdEnv) (h : Owes st held) (inode : Inode) :
    Owes (procFdAccessAllowed env inode st).2 held := by
  have hget := getProcTask_owes env.toTaskEnv h inode.pid
  unfold procFdAccessAllowed
  split
  · next st₁ heq =>
    rw [heq] at hget
    exact hget
  · next task st₁ heq =>
    rw [heq] at hget
    exact hget.tick.put

theorem procPidReadlink_owes (env : FdEnv) (h : Owes st held) (inode : Inode) :
    Owes (procPidReadlink env inode st).2 held := by
  have hallowed := procFdAccessAllowed_owes env h inode
  unfold procPidReadlink
  split
  · next st₁ heq =>
    rw [heq] at hallowed
    exact hallowed
  · next st₁ heq =>
    rw [heq] at hallowed
    have hinfo := procFdInfo_owes env hallowed true inode
    unfold procFdLink
    split
    · next e st₂ heq₂ =>
      rw [heq₂] at hinfo
      exact hinfo
    · next file st₂ heq₂ =>
      rw [heq₂] at hinfo
      exact Owes.put hinfo.tick

/-- What is done with the directories of the descriptors of a process. -/
inductive FdOp where
  /-- `readdir`. -/
  | read (d : FdDir)
  /-- The offset is set. -/
  | seek (n : ℤ)
  /-- A name is looked up in `fd`. -/
  | lookupfd (name : List UInt8)
  /-- A name is looked up in `fdinfo`. -/
  | lookupfdinfo (name : List UInt8)
  /-- A name that is cached is used again. -/
  | revalidate (inode : Inode)
  /-- `readlink` of an entry of `fd`. -/
  | readlink (inode : Inode)
  /-- `read` of an entry of `fdinfo`. -/
  | info (inode : Inode)

/-- What an operation does; `none` when the fuel runs out. -/
def fdStep (env : FdEnv) (fuel : ℕ) (pid : PidPtr) (st : St) : FdOp → Option St
  | .read d => (d.read env fuel pid st).map Prod.snd
  | .seek n => some { st with fPos := n }
  | .lookupfd name => some (procLookupfd env pid name st).2
  | .lookupfdinfo name => some (procLookupfdinfo env pid name st).2
  | .revalidate inode => some (tidFdRevalidate env inode st).2
  | .readlink inode => some (procPidReadlink env inode st).2
  | .info inode => some (procFdInfo env false inode st).2

/-- **No operation keeps a reference**, and none drops one that it has not taken, in
whatever order they come and whatever happens to the process meanwhile. -/
theorem fd_references (env : FdEnv) (fuel : ℕ) (pid : PidPtr) (ops : List FdOp) (st : St)
    (hr : run (fdStep env fuel pid) start ops = some st) : Owes st 0 := by
  refine run_invariant (I := fun st => Owes st 0) ?_ ops start st owes_start hr
  intro st op st' h hstep
  cases op with
  | read d =>
    obtain ⟨⟨ret, st''⟩, hcall, rfl⟩ := Option.map_eq_some_iff.mp hstep
    rw [d.read_eq] at hcall
    exact procReadfdCommon_owes (d.instantiate_keepsNone env) h hcall
  | seek n =>
    cases hstep
    exact h.seek n
  | lookupfd name =>
    cases hstep
    exact procLookupfdCommon_owes env (procFdInstantiate_keepsNone env) h pid name
  | lookupfdinfo name =>
    cases hstep
    exact procLookupfdCommon_owes env (procFdinfoInstantiate_keepsNone env) h pid name
  | revalidate inode =>
    cases hstep
    exact tidFdRevalidate_owes env h inode
  | readlink inode =>
    cases hstep
    exact procPidReadlink_owes env h inode
  | info inode =>
    cases hstep
    have hinfo := procFdInfo_owes env h false inode
    rw [wantedPath_false] at hinfo
    exact hinfo

/-- Both directories are read, with other operations in between. -/
def betweenReads : List FdOp :=
  [.read .fd, .lookupfd (bytes "2"), .lookupfdinfo (bytes "3"), .seek 2, .read .fdinfo]

theorem fd_references_of_three :
    ∃ st, run (fdStep threeFiles 5 1) start betweenReads = some st ∧ Owes st 0 := by
  have hsome : (run (fdStep threeFiles 5 1) start betweenReads).isSome = true := by decide
  obtain ⟨st, hr⟩ := Option.isSome_iff_exists.mp hsome
  exact ⟨st, hr, fd_references threeFiles 5 1 _ st hr⟩

/-! ### Looking up -/

variable {inode inode' : Inode} {task : TaskPtr} {name : List UInt8}

/-- The process and its descriptor are there all the time. -/
structure StaysThere (env : FdEnv) (pid : PidPtr) (task : TaskPtr) (fd : ℕ) : Prop where
  stays : TaskStays env.toTaskEnv pid task
  table : ∀ t, (env.filesOf t task).isSome = true
  opened : ∀ now, StaysOpen env pid now fd

/-- At each moment there is a table, and the descriptor is open in it a moment
later. -/
theorem StaysThere.file (h : StaysThere env pid task fd) (t : ℕ) :
    ∃ files file, env.filesOf t task = some files ∧
      env.fcheckFiles (t + 1) files fd = some file := by
  obtain ⟨files, hfiles⟩ := Option.isSome_iff_exists.mp (h.table t)
  have hopen := h.opened _ (t + 1) (Nat.lt_succ_self _) files
    ⟨t, task, t, h.stays.task_eq t, hfiles⟩
  obtain ⟨file, hfile⟩ := Option.isSome_iff_exists.mp hopen
  exact ⟨files, file, hfiles, hfile⟩

end Dir
end Proc
end KernelStudy
