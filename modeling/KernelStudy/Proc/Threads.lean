import KernelStudy.Lib.Lineup
import KernelStudy.Proc.Entries

/-!
# Listing the threads of a process

`/proc/<pid>/task` has one entry for each thread.  `proc_task_readdir` walks along
the list of the thread group.  If an entry is refused, the next call goes on with
the same thread, whose number it finds in `f_version`; if that thread is gone, or
the offset was set by a seek, it counts the threads from the leader on, up to the
number of those already listed.  Threads come and go meanwhile.

## Main definitions

* `ThreadEnv` — what the code finds at each moment.
* `firstTid`, `nextTid`, `procTaskReaddir` — the code.
* `OfGroup env G leader` — the directory is that of the thread group `G`.
* `Scanned` — the invariant between two calls.

## Main results

* `firstTid_due`, `nextTid_due` — what the two functions find.
* `thread_scan_once` — **a scan ends and lists no thread twice.**
* `thread_scan_references` — **a scan keeps no reference.**
* `thread_scan_complete` — **while no thread exits, it lists every one.**
-/

namespace KernelStudy
namespace Proc
namespace Dir

/-! ### The surroundings -/

/-- What the code finds at each moment. -/
structure ThreadEnv extends CacheEnv where
  /-- The configuration of the kernel. -/
  config : Config
  /-- `get_proc_task` of the directory. -/
  procTask : ℕ → Option TaskPtr
  /-- `pid_alive`: the task has a pid. -/
  pidAlive : ℕ → TaskPtr → Bool
  /-- `task->group_leader`. -/
  groupLeader : ℕ → TaskPtr → TaskPtr
  /-- `next_thread`. -/
  nextThread : ℕ → TaskPtr → TaskPtr
  /-- `find_task_by_pid_ns`. -/
  findTask : ℕ → ℤ → Option TaskPtr
  /-- `task_pid_nr_ns`, which is 0 for a task without a pid. -/
  pidNr : ℕ → TaskPtr → ℕ
  /-- `signal->count`, if `lock_task_sighand` succeeds. -/
  signalCount : ℕ → TaskPtr → Option ℤ
  /-- The result of `filldir`. -/
  filldir : ℕ → ℤ
  pidNr_lt : ∀ t task, pidNr t task < 2 ^ 31

/-! ### The code -/

section

variable (env : ThreadEnv)

/-- `get_nr_threads`. -/
def getNrThreads (t : ℕ) (tsk : TaskPtr) : ℤ := (env.signalCount t tsk).getD 0

/-- The loop of `first_tid` that walks `nr` threads past the leader. -/
def walkThreads (t : ℕ) (leader : TaskPtr) : ℕ → TaskPtr → Option TaskPtr
  | 0, pos => some pos
  | nr + 1, pos =>
      let pos := env.nextThread t pos
      if pos = leader then none else walkThreads t leader nr pos

/-- `first_tid`.  All of it happens inside one read-side critical section, at one
moment. -/
def firstTid (leader : TaskPtr) (tid nr : ℤ) (st : St) : Option TaskPtr × St :=
  let t := st.clock
  -- the thread whose number was kept, if it is still one of the group
  let found :=
    if tid ≠ 0 ∧ 0 < nr then
      (env.findTask t tid).filter fun pos => env.groupLeader t pos = leader
    else none
  match found with
  | some pos => (some pos, st.tick.log (.get (.task pos)))
  | none =>
      -- else the thread at that place, if there are so many
      if nr ≠ 0 ∧ getNrThreads env t leader ≤ nr then (none, st.tick)
      else
        match walkThreads env t leader nr.toNat leader with
        | some pos => (some pos, st.tick.log (.get (.task pos)))
        | none => (none, st.tick)

/-- `next_tid`. -/
def nextTid (start : TaskPtr) (st : St) : Option TaskPtr × St :=
  let t := st.clock
  if env.pidAlive t start then
    let pos := env.nextThread t start
    -- the leader is the first, so the walk is around
    if env.groupLeader t pos = pos then (none, st.tick.log (.put (.task start)))
    else (some pos, (st.tick.log (.get (.task pos))).log (.put (.task start)))
  else (none, st.tick.log (.put (.task start)))

/-- `proc_task_fill_cache`. -/
def procTaskFillCache (task : TaskPtr) (tid : ℕ) : St → ℤ × St :=
  procFillCache env.toCacheEnv env.filldir (procTaskInstantiate env.toTaskEnv env.config task)
    (intText tid, some task)

/-- The loop of `proc_task_readdir`. -/
def threadLoop : ℕ → Option TaskPtr → St → Option St
  | 0, _, _ => none
  | _ + 1, none, st => some st
  | fuel + 1, some task, st =>
      let tid := env.pidNr st.clock task
      let r := procTaskFillCache env task tid st.tick
      -- the number of a thread that was refused is kept for the next call
      if r.1 < 0 then some ({ r.2 with fVersion := tid }.log (.put (.task task)))
      else
        let next := nextTid env task r.2
        threadLoop fuel next.1 { next.2 with fPos := next.2.fPos + 1 }

/-- `proc_task_readdir`: its result and the directory; `none` when the fuel runs
out. -/
def procTaskReaddir (fuel : ℕ) (st : St) : Option (ℤ × St) :=
  match env.procTask st.clock with
  | none => some (enoent, st.tick)
  | some task =>
      let st := st.tick.log (.get (.task task))
      if env.pidAlive st.clock task then
        let leader := env.groupLeader st.clock task
        let st := (st.tick.log (.get (.task leader))).log (.put (.task task))
        match fillLoop (fill env.filldir) (dotsLeft st.fPos) st with
        | (false, st) => some (0, st.log (.put (.task leader)))
        | (true, st) =>
            let tid := s32 st.fVersion
            let st := { st with fVersion := 0 }
            let first := firstTid env leader tid (s32 (st.fPos - 2)) st
            (threadLoop env fuel first.1 first.2).map fun st => (0, st.log (.put (.task leader)))
      else some (enoent, st.tick.log (.put (.task task)))

end

/-! ### The thread group -/

/-- The directory is that of the thread group `G`, whose leader stays the same.  A task
of the group has a pid as long as it is linked into the list, the leader comes first
there, and the number of a thread is not given to another thread of the group while the
directory is read. -/
structure OfGroup (env : ThreadEnv) (G : Lineup TaskPtr) (leader : TaskPtr) : Prop where
  ofTask : ∀ t t' task, env.procTask t = some task → env.groupLeader t' task = leader
  leads : ∀ t t' x, t ≤ t' → x ∈ G.members t → env.groupLeader t' x = leader
  alive : ∀ t x, env.groupLeader t x = leader → env.pidAlive t x = true → x ∈ G.members t
  found : ∀ t n x, env.findTask t n = some x → env.groupLeader t x = leader → x ∈ G.members t
  first : ∀ t x, (G.members t)[0]? = some x → x = leader
  next : ∀ t k x, (G.members t)[k]? = some x →
    env.nextThread t x = ((G.members t)[k + 1]?).getD leader
  alone : ∀ t, leader ∉ G.members t → env.nextThread t leader = leader
  number : ∀ t₀ t t' x y, x ∈ G.members t₀ → env.pidNr t x ≠ 0 →
    env.findTask t' (env.pidNr t x) = some y → y ∈ G.members t' → y = x

variable {env : ThreadEnv} {G : Lineup TaskPtr} {leader x c : TaskPtr} {st st' : St}
  {l : List TaskPtr} {t k : ℕ}

/-- Where there is anybody, the leader is. -/
theorem OfGroup.leader_first (h : OfGroup env G leader) (hx : x ∈ G.members t) :
    (G.members t)[0]? = some leader := by
  cases hm : G.members t with
  | nil =>
    rw [hm] at hx
    exact absurd hx List.not_mem_nil
  | cons y ys =>
    have hy : y = leader := h.first t y (by rw [hm]; rfl)
    rw [hy]
    rfl

/-- Only the leader is at the first place. -/
theorem OfGroup.ne_leader (h : OfGroup env G leader) (hc : (G.members t)[k + 1]? = some c) :
    c ≠ leader := by
  rintro rfl
  have hfirst := Lineup.upTo_of_getElem (h.leader_first (List.mem_of_getElem? hc))
  rw [Lineup.upTo_of_getElem hc] at hfirst
  omega

/-- Walking along the list counts places. -/
theorem walkThreads_place (h : OfGroup env G leader) : ∀ (n k : ℕ) (x : TaskPtr),
    (G.members t)[k]? = some x → walkThreads env t leader n x = (G.members t)[k + n]? := by
  intro n
  induction n with
  | zero => intro k x hx; exact hx.symm
  | succ n ih =>
    intro k x hx
    rw [walkThreads, h.next t k x hx]
    cases hnext : (G.members t)[k + 1]? with
    | none =>
      -- behind the last thread comes the leader again
      have hend : (G.members t)[k + (n + 1)]? = none := by
        rw [List.getElem?_eq_none_iff] at hnext ⊢
        omega
      rw [Option.getD_none, if_pos rfl, hend]
    | some y =>
      have hy := h.ne_leader hnext
      rw [Option.getD_some, if_neg hy, ih (k + 1) y hnext]
      congr 1
      omega

/-- What `next_tid` finds behind the thread listed last. -/
theorem nextTid_due (h : OfGroup env G leader) (hl : G.Listed st.clock (l ++ [x]))
    (hc : (nextTid env x st).1 = some c) : G.Due st.clock (l ++ [x]) c := by
  obtain ⟨t, ht, hseen⟩ := hl.seen x (List.mem_append_right _ List.mem_cons_self)
  unfold nextTid at hc
  dsimp only at hc
  split at hc
  · next halive =>
    have hmem := h.alive _ x (h.leads t _ x ht hseen) halive
    obtain ⟨k, hk, hx⟩ := List.mem_iff_getElem.mp hmem
    have hx' : (G.members st.clock)[k]? = some x := List.getElem?_eq_some_iff.mpr ⟨hk, hx⟩
    split at hc
    · cases hc
    · next hnot =>
      rw [Option.some.injEq, h.next _ k x hx'] at hc
      rw [h.next _ k x hx'] at hnot
      cases hnext : (G.members st.clock)[k + 1]? with
      | none =>
        -- at the end of the list `next_thread` is the leader
        rw [hnext, Option.getD_none] at hnot
        have hleader := List.mem_of_getElem? (h.leader_first hmem)
        exact absurd (h.leads _ _ leader le_rfl hleader) hnot
      | some y =>
        rw [hnext, Option.getD_some] at hc
        rw [hc] at hnext
        exact Lineup.due_of_next hl hx' hnext
  · cases hc

/-- What `next_tid` does besides. -/
theorem nextTid_snd (env : ThreadEnv) (x : TaskPtr) (st : St) :
    (nextTid env x st).2 =
      match (nextTid env x st).1 with
      | some pos => (st.tick.log (.get (.task pos))).log (.put (.task x))
      | none => st.tick.log (.put (.task x)) := by
  unfold nextTid
  dsimp only
  split
  · split
    · rfl
    · rfl
  · rfl

/-- Neither the position nor the entries change in `next_tid`. -/
theorem nextTid_frame (env : ThreadEnv) (x : TaskPtr) (st : St) :
    (nextTid env x st).2.clock = st.clock + 1 ∧ (nextTid env x st).2.fPos = st.fPos ∧
      (nextTid env x st).2.fVersion = st.fVersion ∧
      accepted (nextTid env x st).2.trace = accepted st.trace := by
  rw [nextTid_snd]
  cases (nextTid env x st).1 with
  | none => simp
  | some pos => simp

/-- What `first_tid` does besides. -/
theorem firstTid_snd (env : ThreadEnv) (leader : TaskPtr) (tid nr : ℤ) (st : St) :
    (firstTid env leader tid nr st).2 =
      match (firstTid env leader tid nr st).1 with
      | some pos => st.tick.log (.get (.task pos))
      | none => st.tick := by
  unfold firstTid
  dsimp only
  split
  · rfl
  · split
    · rfl
    · split
      · rfl
      · rfl

theorem firstTid_frame (env : ThreadEnv) (leader : TaskPtr) (tid nr : ℤ) (st : St) :
    (firstTid env leader tid nr st).2.clock = st.clock + 1 ∧
      (firstTid env leader tid nr st).2.fPos = st.fPos ∧
      (firstTid env leader tid nr st).2.fVersion = st.fVersion ∧
      accepted (firstTid env leader tid nr st).2.trace = accepted st.trace := by
  rw [firstTid_snd]
  cases (firstTid env leader tid nr st).1 with
  | none => simp
  | some pos => simp

/-- The two ways through `first_tid`: by the number, and by the place. -/
theorem firstTid_fst (env : ThreadEnv) (leader : TaskPtr) (tid nr : ℤ) (st : St) :
    (∃ pos, (firstTid env leader tid nr st).1 = some pos ∧ tid ≠ 0 ∧
      env.findTask st.clock tid = some pos ∧ env.groupLeader st.clock pos = leader) ∨
    (firstTid env leader tid nr st).1 =
      if nr ≠ 0 ∧ getNrThreads env st.clock leader ≤ nr then none
      else walkThreads env st.clock leader nr.toNat leader := by
  unfold firstTid
  dsimp only
  split
  · next pos hpos =>
    left
    split at hpos
    · next htid =>
      obtain ⟨hfind, hlead⟩ := Option.filter_eq_some_iff.mp hpos
      exact ⟨pos, rfl, htid.1, hfind, of_decide_eq_true hlead⟩
    · cases hpos
  · right
    split
    · rfl
    · split
      · next pos hwalk => exact hwalk.symm
      · next hwalk => exact hwalk.symm

/-- What `first_tid` finds behind `l`, given the number of a thread that is due or
none. -/
theorem firstTid_due (st : St) (h : OfGroup env G leader) (hl : G.Listed st.clock l)
    (hleader : ∃ t ≤ st.clock, leader ∈ G.members t) {n : ℕ}
    (hn : n = 0 ∨ ∃ c, G.Due st.clock l c ∧ ∃ t, env.pidNr t c = n)
    (hc : (firstTid env leader n l.length st).1 = some c) : G.Due st.clock l c := by
  rcases firstTid_fst env leader n l.length st with ⟨pos, hpos, hne, hfind, hlead⟩ | hplace
  · rcases hn with hzero | ⟨d, hd, t, ht⟩
    · exact absurd (by rw [hzero]; rfl) hne
    · -- nobody else of the group has the number
      have hmem := h.found _ _ pos hfind hlead
      obtain ⟨t₀, -, hseen⟩ := hd.seen
      have hne' : env.pidNr t d ≠ 0 := by
        rw [ht]
        exact fun hz => hne (by rw [hz]; rfl)
      rw [← ht] at hfind
      have heq := h.number t₀ t _ d pos hseen hne' hfind hmem
      rw [hpos, heq] at hc
      rw [← Option.some.inj hc]
      exact hd
  · rw [hplace] at hc
    split at hc
    · cases hc
    · rw [Int.toNat_natCast] at hc
      by_cases hmem : leader ∈ G.members st.clock
      · rw [walkThreads_place h _ 0 leader (h.leader_first hmem), Nat.zero_add] at hc
        exact Lineup.due_of_place hl hc
      · -- the leader is gone, and only it can be found
        cases l with
        | nil =>
          rw [List.length_nil, walkThreads] at hc
          obtain ⟨t, ht, hseen⟩ := hleader
          rw [← Option.some.inj hc]
          exact Lineup.due_of_first ht (h.leader_first hseen)
        | cons y l =>
          rw [List.length_cons, walkThreads, h.alone _ hmem, if_pos rfl] at hc
          cases hc

/-- When `first_tid` finds nothing behind `l`, there is nothing. -/
theorem firstTid_none (h : OfGroup env G leader) (hleader : leader ∈ G.members st.clock)
    (hcount : ((G.members st.clock).length : ℤ) ≤ getNrThreads env st.clock leader) {n : ℕ}
    (hnone : (firstTid env leader n l.length st).1 = none) :
    (G.members st.clock).length ≤ l.length := by
  rcases firstTid_fst env leader n l.length st with ⟨pos, hpos, -⟩ | hplace
  · rw [hnone] at hpos
    cases hpos
  · rw [hnone] at hplace
    split at hplace
    · next hend =>
      exact_mod_cast hcount.trans hend.2
    · rw [Int.toNat_natCast, walkThreads_place h _ 0 leader (h.leader_first hleader),
        Nat.zero_add] at hplace
      exact List.getElem?_eq_none_iff.mp hplace.symm

/-! ### The loop -/

theorem procTaskFillCache_offers (env : ThreadEnv) (task : TaskPtr) (tid : ℕ) (st : St) :
    Offers (intText tid, some task) st (procTaskFillCache env task tid st) :=
  procFillCache_offers env.toCacheEnv env.filldir
    (pidInstantiate_keepsNone env.toTaskEnv openDir _ task) _ st

/-- The entry is that of the thread. -/
def Shows (env : ThreadEnv) (e : Entry) (x : TaskPtr) : Prop :=
  e.2 = some x ∧ ∃ t, e.1 = intText (env.pidNr t x)

/-- The first two entries and the threads `l` have been listed, and `f_pos` counts
them. -/
structure Scanned (env : ThreadEnv) (G : Lineup TaskPtr) (st : St) (l : List TaskPtr) : Prop where
  listed : G.Listed st.clock l
  shown : ∃ es, accepted st.trace = dots ++ es ∧ List.Forall₂ (Shows env) es l
  fPos : st.fPos = 2 + l.length

/-- `f_version` is the number of a thread that is due, or none. -/
def Waiting (env : ThreadEnv) (G : Lineup TaskPtr) (st : St) (l : List TaskPtr) : Prop :=
  st.fVersion = 0 ∨ ∃ c, G.Due st.clock l c ∧ ∃ t, env.pidNr t c = st.fVersion

theorem Scanned.later (h : Scanned env G st l) (hclock : st.clock ≤ st'.clock)
    (hpos : st'.fPos = st.fPos) (hacc : accepted st'.trace = accepted st.trace) :
    Scanned env G st' l where
  listed := h.listed.later hclock
  shown := by
    rw [hacc]
    exact h.shown
  fPos := hpos.trans h.fPos

theorem Waiting.later (h : Waiting env G st l) (hclock : st.clock ≤ st'.clock)
    (hversion : st'.fVersion = st.fVersion) : Waiting env G st' l := by
  unfold Waiting at *
  rw [hversion]
  rcases h with hzero | ⟨c, hc, hnumber⟩
  · exact Or.inl hzero
  · exact Or.inr ⟨c, hc.later hclock, hnumber⟩

/-- A thread is listed. -/
theorem Scanned.emit (h : Scanned env G st l) (hclock : st.clock ≤ st'.clock)
    (hc : G.Due st'.clock l c) (hpos : st'.fPos = st.fPos + 1) {e : Entry} (he : Shows env e c)
    (hacc : accepted st'.trace = accepted st.trace ++ [e]) : Scanned env G st' (l ++ [c]) where
  listed := (h.listed.later hclock).emit hc
  shown := by
    obtain ⟨es, hes, hshows⟩ := h.shown
    refine ⟨es ++ [e], ?_, List.rel_append hshows (.cons he .nil)⟩
    rw [hacc, hes, List.append_assoc]
  fPos := by
    rw [hpos, h.fPos]
    simp
    ring

variable {R : ℕ}

/-- **The loop ends and lists what is due**, since the threads it meets get
younger. -/
theorem threadLoop_spec (h : OfGroup env G leader) (hR : ∀ t, ∀ x ∈ G.members t, G.rank x < R) :
    ∀ (fuel : ℕ) (task : Option TaskPtr) (st : St) (l : List TaskPtr), Scanned env G st l →
      st.fVersion = 0 → 0 < fuel →
      (∀ c, task = some c → G.Due st.clock l c ∧ R < fuel + G.rank c) →
      ∃ st' l', threadLoop env fuel task st = some st' ∧ Scanned env G st' l' ∧
        Waiting env G st' l' ∧ st.clock ≤ st'.clock := by
  intro fuel
  induction fuel with
  | zero => intro task st l _ _ h0; omega
  | succ fuel ih =>
    intro task st l hs hversion _ hdue
    cases task with
    | none => exact ⟨st, l, rfl, hs, Or.inl hversion, le_rfl⟩
    | some c =>
      obtain ⟨hc, hfuel⟩ := hdue c rfl
      rw [threadLoop]
      dsimp only
      have hr := procTaskFillCache_offers env c (env.pidNr st.clock c) st.tick
      generalize procTaskFillCache env c (env.pidNr st.clock c) st.tick = r at hr ⊢
      have hclock : st.clock + 1 < r.2.clock := hr.clock
      have hacc := hr.accepted_eq
      split
      · next hrefused =>
        -- the thread is refused, and its number is kept for the next call
        rw [if_pos hrefused, List.append_nil] at hacc
        refine ⟨_, l, rfl, hs.later ?_ hr.fPos ?_, Or.inr ⟨c, hc.later ?_, st.clock, rfl⟩, ?_⟩
        · exact (Nat.le_succ _).trans hclock.le
        · simpa using hacc
        · exact (Nat.le_succ _).trans hclock.le
        · exact (Nat.le_succ _).trans hclock.le
      · next haccepted =>
        rw [if_neg haccepted] at hacc
        -- the state in which `next_tid` is called
        have hpos₁ : r.2.fPos = st.fPos := hr.fPos
        have hversion₁ : r.2.fVersion = 0 := hr.fVersion.trans hversion
        generalize r.2 = st₁ at hpos₁ hversion₁ hclock hacc ⊢
        have hlist₁ : G.Listed st₁.clock (l ++ [c]) :=
          (hs.listed.later (by omega)).emit (hc.later (by omega))
        obtain ⟨hclock₂, hpos₂, hversion₂, hacc₂⟩ := nextTid_frame env c st₁
        generalize (nextTid env c st₁).2 = st₂ at hclock₂ hpos₂ hversion₂ hacc₂
        have hs₂ : Scanned env G { st₂ with fPos := st₂.fPos + 1 } (l ++ [c]) := by
          refine hs.emit ?_ (hc.later ?_) ?_ ⟨rfl, st.clock, rfl⟩ (hacc₂.trans hacc)
          · dsimp only
            omega
          · dsimp only
            omega
          · dsimp only
            rw [hpos₂, hpos₁]
        have hnext := ih (nextTid env c st₁).1 { st₂ with fPos := st₂.fPos + 1 } (l ++ [c]) hs₂
          (hversion₂.trans hversion₁)
        obtain ⟨t, -, hseen⟩ := hc.seen
        have hrank := hR t c hseen
        obtain ⟨st', l', hloop, hs', hw', hclock'⟩ := hnext (by omega) (by
          intro d hd
          have hd' := nextTid_due h hlist₁ hd
          have hyounger := hd'.younger c (List.mem_append_right _ List.mem_cons_self)
          refine ⟨hd'.later ?_, by omega⟩
          dsimp only
          omega)
        refine ⟨st', l', hloop, hs', hw', ?_⟩
        dsimp only at hclock'
        omega

/-! ### One call -/

/-- The invariant between two calls. -/
def Resumes (env : ThreadEnv) (G : Lineup TaskPtr) (st : St) : Prop :=
  (∃ d < 2, accepted st.trace = dots.take d ∧ st.fPos = d ∧ st.fVersion = 0) ∨
    ∃ l, Scanned env G st l ∧ Waiting env G st l

theorem resumes_start : Resumes env G start := Or.inl ⟨0, by decide, rfl, rfl, rfl⟩

theorem Resumes.later (h : Resumes env G st) (hclock : st.clock ≤ st'.clock)
    (hpos : st'.fPos = st.fPos) (hversion : st'.fVersion = st.fVersion)
    (hacc : accepted st'.trace = accepted st.trace) : Resumes env G st' := by
  rcases h with ⟨d, hd, h₁, h₂, h₃⟩ | ⟨l, hs, hw⟩
  · exact Or.inl ⟨d, hd, hacc.trans h₁, hpos.trans h₂, hversion.trans h₃⟩
  · exact Or.inr ⟨l, hs.later hclock hpos hacc, hw.later hclock hversion⟩

theorem dotsLeft_of_scanned (hs : Scanned env G st l) (hlen : l.length + 2 < 2 ^ 31) :
    dotsLeft st.fPos = [] := by
  have hpos : st.fPos = ((2 + l.length : ℕ) : ℤ) := by
    rw [hs.fPos]
    push_cast
    rfl
  rw [hpos, dotsLeft_of_lt (by omega)]
  exact List.drop_eq_nil_of_le (Nat.le_add_right 2 _)

/-- The first two entries are listed once, before the threads. -/
theorem dots_resumes (h : Resumes env G st) (hR : ∀ t, ∀ x ∈ G.members t, G.rank x < R)
    (hsmall : R + 2 < 2 ^ 31) {ok : Bool} {st₁ : St}
    (hdots : fillLoop (fill env.filldir) (dotsLeft st.fPos) st = (ok, st₁)) :
    st.clock ≤ st₁.clock ∧ Resumes env G st₁ ∧
      (ok = true → ∃ l, Scanned env G st₁ l ∧ Waiting env G st₁ l) := by
  rcases h with ⟨d, hd, hacc, hpos, hversion⟩ | ⟨l, hs, hw⟩
  · obtain ⟨d', hd', hacc₁, hpos₁, hversion₁, hclock, hok⟩ :=
      fillLoop_dots (by omega) hacc hpos hdots
    have hzero := hversion₁.trans hversion
    -- both entries are listed exactly if the loop ran to its end
    have hdone : d' = 2 → ∃ l, Scanned env G st₁ l ∧ Waiting env G st₁ l := by
      rintro rfl
      exact ⟨[], ⟨Lineup.listed_nil G _, ⟨[], hacc₁, .nil⟩, hpos₁⟩, Or.inl hzero⟩
    refine ⟨hclock, ?_, fun hend => hdone (hok.mp hend)⟩
    rcases Nat.lt_or_ge d' 2 with hlt | hge
    · exact Or.inl ⟨d', hlt, hacc₁, hpos₁, hzero⟩
    · exact Or.inr (hdone (by omega))
  · have hlen := hs.listed.length_le hR
    rw [dotsLeft_of_scanned hs (by omega), fillLoop] at hdots
    cases hdots
    exact ⟨le_rfl, Or.inr ⟨l, hs, hw⟩, fun _ => ⟨l, hs, hw⟩⟩

/-- What `first_tid` is called with, once `n` threads are listed. -/
theorem s32_place (hs : Scanned env G st l) (hlen : l.length + 2 < 2 ^ 31) :
    s32 (st.fPos - 2) = (l.length : ℤ) := by
  have hpos : st.fPos - 2 = (l.length : ℤ) := by
    rw [hs.fPos]
    ring
  rw [hpos]
  exact s32_of_lt (by omega)

theorem s32_version (hw : Waiting env G st l) : s32 (st.fVersion : ℤ) = (st.fVersion : ℤ) := by
  apply s32_of_lt
  rcases hw with hzero | ⟨c, -, t, ht⟩
  · omega
  · rw [← ht]
    exact env.pidNr_lt t c

/-- The state in which the entries are listed: the leader is referenced in place of
the task of the directory. -/
def withLeader (leader task : TaskPtr) (st : St) : St :=
  ((st.tick.log (.get (.task task))).tick.log (.get (.task leader))).log (.put (.task task))

theorem Resumes.withLeader (h : Resumes env G st) (leader task : TaskPtr) :
    Resumes env G (withLeader leader task st) :=
  h.later (Nat.le_add_right _ 2) rfl rfl (by simp [Dir.withLeader])

/-- The rest of a call that has found the leader and listed the first entries. -/
def listThreads (env : ThreadEnv) (fuel : ℕ) (leader : TaskPtr) (st : St) : Option (ℤ × St) :=
  let first := firstTid env leader (s32 st.fVersion) (s32 (st.fPos - 2)) { st with fVersion := 0 }
  (threadLoop env fuel first.1 first.2).map fun st => (0, st.log (.put (.task leader)))

/-- The ways through a call that finds no live task. -/
def NoTask (st st' : St) : Prop :=
  st' = st.tick ∨ ∃ task, st' = (st.tick.log (.get (.task task))).tick.log (.put (.task task))

/-- The task is found alive, with its leader. -/
def TaskFound (env : ThreadEnv) (st : St) (task leader : TaskPtr) : Prop :=
  env.procTask st.clock = some task ∧ env.pidAlive (st.clock + 1) task = true ∧
    env.groupLeader (st.clock + 1) task = leader

/-- **The ways through a call**: there is no live task, or the first entries are
refused, or the threads are listed. -/
theorem procTaskReaddir_cases (env : ThreadEnv) (fuel : ℕ) (st : St) :
    (∃ st', procTaskReaddir env fuel st = some (enoent, st') ∧ NoTask st st') ∨
    ∃ task leader ok st₁, TaskFound env st task leader ∧
      fillLoop (fill env.filldir) (dotsLeft st.fPos) (withLeader leader task st) = (ok, st₁) ∧
      procTaskReaddir env fuel st =
        if ok then listThreads env fuel leader st₁ else some (0, st₁.log (.put (.task leader))) := by
  unfold procTaskReaddir
  cases htask : env.procTask st.clock with
  | none => exact Or.inl ⟨_, rfl, Or.inl rfl⟩
  | some task =>
    dsimp only
    split
    · next halive =>
      right
      have hclock : (st.tick.log (.get (.task task))).clock = st.clock + 1 := rfl
      rw [hclock] at halive ⊢
      generalize hleader : env.groupLeader (st.clock + 1) task = leader
      rcases hdots : fillLoop (fill env.filldir) (dotsLeft st.fPos) (withLeader leader task st) with
        ⟨ok, st₁⟩
      refine ⟨task, leader, ok, st₁, ⟨htask, halive, hleader⟩, hdots, ?_⟩
      rw [withLeader] at hdots
      simp only [log_fPos, tick_fPos]
      rw [hdots]
      cases ok with
      | false => rfl
      | true => rfl
    · exact Or.inl ⟨_, rfl, Or.inr ⟨task, rfl⟩⟩

theorem Resumes.noTask (h : Resumes env G st) (hst' : NoTask st st') : Resumes env G st' := by
  rcases hst' with rfl | ⟨task, rfl⟩
  · exact h.later (Nat.le_succ _) rfl rfl rfl
  · exact h.later (Nat.le_add_right _ 2) rfl rfl (by simp)

/-- The leader found is that of the group, and still in it. -/
theorem OfGroup.taskFound (h : OfGroup env G leader) {task leader' : TaskPtr}
    (hfound : TaskFound env st task leader') :
    leader' = leader ∧ leader ∈ G.members (st.clock + 1) := by
  obtain ⟨htask, halive, hleader⟩ := hfound
  have hleads := h.ofTask st.clock (st.clock + 1) task htask
  have hmem := h.alive (st.clock + 1) task hleads halive
  exact ⟨hleader.symm.trans hleads, List.mem_of_getElem? (h.leader_first hmem)⟩

/-- **A call ends and keeps the invariant.** -/
theorem procTaskReaddir_resumes (h : OfGroup env G leader)
    (hR : ∀ t, ∀ x ∈ G.members t, G.rank x < R) (hsmall : R + 2 < 2 ^ 31) {fuel : ℕ}
    (hfuel : R < fuel) (hI : Resumes env G st) :
    ∃ ret st', procTaskReaddir env fuel st = some (ret, st') ∧ Resumes env G st' := by
  rcases procTaskReaddir_cases env fuel st with
    ⟨st', hcall, hnone⟩ | ⟨task, leader', ok, st₁, hfound, hdots, hcall⟩
  · exact ⟨_, st', hcall, hI.noTask hnone⟩
  · obtain ⟨rfl, hleader⟩ := h.taskFound hfound
    obtain ⟨hclock₁, hI₁, hscanned⟩ := dots_resumes (hI.withLeader leader' task) hR hsmall hdots
    cases ok with
    | false => exact ⟨_, _, hcall, hI₁.later le_rfl rfl rfl (by simp)⟩
    | true =>
      obtain ⟨l, hs, hw⟩ := hscanned rfl
      have hlen := hs.listed.length_le hR
      have hle : st.clock + 2 ≤ st₁.clock := hclock₁
      rw [if_pos rfl, listThreads, s32_version hw, s32_place hs (by omega)] at hcall
      have hdue : ∀ c, (firstTid env leader' st₁.fVersion l.length
          { st₁ with fVersion := 0 }).1 = some c → G.Due st₁.clock l c :=
        fun c hc => firstTid_due { st₁ with fVersion := 0 } h hs.listed
          ⟨st.clock + 1, by dsimp only; omega, hleader⟩ hw hc
      obtain ⟨hclock₂, hpos₂, hversion₂, hacc₂⟩ :=
        firstTid_frame env leader' st₁.fVersion l.length { st₁ with fVersion := 0 }
      generalize firstTid env leader' st₁.fVersion l.length { st₁ with fVersion := 0 } = first
        at hcall hdue hclock₂ hpos₂ hversion₂ hacc₂
      dsimp only at hclock₂
      have hs₂ : Scanned env G first.2 l := hs.later (by omega) hpos₂ hacc₂
      obtain ⟨st', l', hloop, hs', hw', -⟩ := threadLoop_spec h hR fuel first.1 first.2 l hs₂
        hversion₂ (by omega) fun c hc => ⟨(hdue c hc).later (by omega), by omega⟩
      rw [hloop] at hcall
      exact ⟨_, _, hcall, Or.inr ⟨l', hs'.later le_rfl rfl (by simp), hw'.later le_rfl rfl⟩⟩

/-! ### A whole scan -/

/-- A call, as a step. -/
def readThreads (env : ThreadEnv) (fuel : ℕ) (st : St) (_ : Unit) : Option St :=
  (procTaskReaddir env fuel st).map Prod.snd

theorem run_resumes (h : OfGroup env G leader) (hR : ∀ t, ∀ x ∈ G.members t, G.rank x < R)
    (hsmall : R + 2 < 2 ^ 31) {fuel : ℕ} (hfuel : R < fuel) (calls : List Unit) :
    ∃ st, run (readThreads env fuel) start calls = some st ∧ Resumes env G st := by
  refine run_total (P := fun _ => True) ?_ calls start resumes_start fun _ _ => trivial
  intro st _ hI _
  obtain ⟨ret, st', hcall, hI'⟩ := procTaskReaddir_resumes h hR hsmall hfuel hI
  exact ⟨st', by rw [readThreads, hcall]; rfl, hI'⟩

/-- A process with three threads, read with a small buffer. -/
def threeThreads : ThreadEnv where
  toCacheEnv := oneTaskCache
  config := allOptions
  procTask := fun _ => some 2
  pidAlive := fun _ x => decide (x ∈ [1, 2, 3])
  groupLeader := fun _ _ => 1
  nextThread := fun _ x => if x = 1 then 2 else if x = 2 then 3 else 1
  findTask := fun _ n => if n = 1 ∨ n = 2 ∨ n = 3 then some n.toNat else none
  pidNr := fun _ x => if x < 4 then x else 0
  signalCount := fun _ _ => some 3
  filldir := fun t => if t % 8 = 6 then -1 else 0
  pidNr_lt := by
    intro _ x
    split
    · next hx => exact hx.trans_le (Nat.le_of_ble_eq_true rfl)
    · exact Nat.le_of_ble_eq_true rfl

/-- Its threads. -/
def threeMembers : Lineup TaskPtr where
  members := fun _ => [1, 2, 3]
  rank := id
  sorted := fun _ => by simp
  older := fun _ _ hx _ => hx
  stays := fun _ _ hx _ => hx

theorem threeThreads_ofGroup : OfGroup threeThreads threeMembers 1 where
  ofTask := fun _ _ _ _ => rfl
  leads := fun _ _ _ _ _ => rfl
  alive := fun _ _ _ halive => of_decide_eq_true halive
  found := by
    intro t n x hx _
    simp only [threeThreads] at hx
    split at hx
    · next hn =>
      rw [← Option.some.inj hx]
      rcases hn with rfl | rfl | rfl
      · simp [threeMembers]
      · simp [threeMembers]
      · simp [threeMembers]
    · cases hx
  first := fun _ _ hx => (Option.some.inj hx).symm
  next := by
    intro t k x hx
    simp only [threeMembers] at hx ⊢
    match k, hx with
    | 0, hx => rw [← Option.some.inj hx]; rfl
    | 1, hx => rw [← Option.some.inj hx]; rfl
    | 2, hx => rw [← Option.some.inj hx]; rfl
    | k + 3, hx => cases hx
  alone := fun _ hne => absurd List.mem_cons_self hne
  number := by
    intro t₀ t t' x y _ _ hy _
    simp only [threeThreads] at hy
    split at hy
    · split at hy
      · rw [← Option.some.inj hy, Int.toNat_natCast]
      · cases hy
    · cases hy

theorem threeMembers_rank : ∀ t, ∀ x ∈ threeMembers.members t, threeMembers.rank x < 4 := by
  intro t x hx
  have hx' : x ∈ [1, 2, 3] := hx
  fin_cases hx' <;> decide

variable {held : Multiset Thing}

/-- `next_tid` exchanges the reference to the thread for one to the next. -/
theorem nextTid_owes (h : Owes st (.task x ::ₘ held)) :
    Owes (nextTid env x st).2 (holding ((nextTid env x st).1.map .task) held) := by
  rw [nextTid_snd]
  cases (nextTid env x st).1 with
  | none => exact h.tick.put
  | some pos =>
    have hget := h.tick.get (.task pos)
    rw [Multiset.cons_swap] at hget
    exact hget.put

theorem firstTid_owes (h : Owes st held) (tid nr : ℤ) :
    Owes (firstTid env leader tid nr st).2
      (holding ((firstTid env leader tid nr st).1.map .task) held) := by
  rw [firstTid_snd]
  cases (firstTid env leader tid nr st).1 with
  | none => exact h.tick
  | some pos => exact h.tick.get _

/-- The loop drops the reference it is entered with. -/
theorem threadLoop_owes : ∀ (fuel : ℕ) (task : Option TaskPtr) (st st' : St),
    Owes st (holding (task.map .task) held) → threadLoop env fuel task st = some st' →
      Owes st' held := by
  intro fuel
  induction fuel with
  | zero => intro task st st' _ hloop; cases hloop
  | succ fuel ih =>
    intro task st st' h hloop
    cases task with
    | none =>
      rw [threadLoop, Option.some.injEq] at hloop
      exact hloop ▸ h
    | some c =>
      rw [threadLoop] at hloop
      dsimp only at hloop
      have hfill : Owes (procTaskFillCache env c (env.pidNr st.clock c) st.tick).2
          (.task c ::ₘ held) := (procTaskFillCache_offers env c _ _).owes _ h.tick
      split at hloop
      · rw [Option.some.injEq] at hloop
        rw [← hloop]
        exact Owes.put hfill
      · exact ih _ _ _ ((nextTid_owes hfill).seek _) hloop

/-- **Every call drops the references it takes**, and none besides, in whatever
surroundings. -/
theorem procTaskReaddir_owes {fuel : ℕ} {ret : ℤ} (h : Owes st held)
    (hcall : procTaskReaddir env fuel st = some (ret, st')) : Owes st' held := by
  rcases procTaskReaddir_cases env fuel st with
    ⟨st'', hcall', hnone⟩ | ⟨task, leader, ok, st₁, -, hdots, hcall'⟩
  · rw [hcall'] at hcall
    cases hcall
    rcases hnone with rfl | ⟨task, rfl⟩
    · exact h.tick
    · exact (h.tick.get _).tick.put
  · have hget := (h.tick.get (.task task)).tick.get (.task leader)
    rw [Multiset.cons_swap] at hget
    have hfill := hget.put.fillDots env.filldir st.fPos
    rw [withLeader] at hdots
    rw [hdots] at hfill
    rw [hcall'] at hcall
    cases ok with
    | false =>
      cases hcall
      exact hfill.put
    | true =>
      rw [if_pos rfl, listThreads, Option.map_eq_some_iff] at hcall
      obtain ⟨st₂, hloop, hst'⟩ := hcall
      have hfirst : Owes { st₁ with fVersion := 0 } (.task leader ::ₘ held) := hfill
      cases hst'
      exact (threadLoop_owes fuel _ _ _ (firstTid_owes hfirst _ _) hloop).put

/-- **No scan keeps a reference**, and none drops one that it has not taken, in
whatever surroundings and however often it is cut short. -/
theorem thread_scan_references (env : ThreadEnv) (fuel : ℕ) (calls : List Unit) (st : St)
    (hr : run (readThreads env fuel) start calls = some st) : Owes st 0 := by
  refine run_invariant (I := fun st => Owes st 0) ?_ calls start st owes_start hr
  intro st _ st' h hstep
  rw [readThreads, Option.map_eq_some_iff] at hstep
  obtain ⟨⟨ret, st''⟩, hcall, rfl⟩ := hstep
  exact procTaskReaddir_owes h hcall

/-- The scan of three threads keeps no reference. -/
theorem thread_scan_references_of_three :
    ∃ st, run (readThreads threeThreads 5) start [(), (), (), ()] = some st ∧ Owes st 0 := by
  obtain ⟨st, hr, -⟩ := run_resumes threeThreads_ofGroup threeMembers_rank (by decide)
    (by decide : 4 < 5) [(), (), (), ()]
  exact ⟨st, hr, thread_scan_references threeThreads 5 _ st hr⟩

/-! ### The end of a scan -/

theorem offered_nextTid (env : ThreadEnv) (x : TaskPtr) (st : St) :
    offered (nextTid env x st).2.trace = offered st.trace := by
  rw [nextTid_snd]
  cases (nextTid env x st).1 with
  | none => simp
  | some pos => simp

theorem offered_firstTid (env : ThreadEnv) (leader : TaskPtr) (tid nr : ℤ) (st : St) :
    offered (firstTid env leader tid nr st).2.trace = offered st.trace := by
  rw [firstTid_snd]
  cases (firstTid env leader tid nr st).1 with
  | none => simp
  | some pos => simp

/-- The loop offers a thread if it has one. -/
theorem offered_threadLoop (env : ThreadEnv) : ∀ (fuel : ℕ) (task : Option TaskPtr) (st st' : St),
    threadLoop env fuel task st = some st' →
      (offered st.trace).length + task.toList.length ≤ (offered st'.trace).length := by
  intro fuel
  induction fuel with
  | zero => intro task st st' h; cases h
  | succ fuel ih =>
    intro task st st' h
    cases task with
    | none =>
      cases h
      exact le_rfl
    | some c =>
      rw [threadLoop] at h
      dsimp only at h
      have hone := (procTaskFillCache_offers env c (env.pidNr st.clock c) st.tick).offered_eq
      split at h
      · cases h
        simp [hone]
      · refine le_trans ?_ (Nat.le_of_add_right_le (ih _ _ _ h))
        simp [offered_nextTid, hone]

/-- The rest of a call offers nothing exactly if `first_tid` finds no thread. -/
theorem listThreads_end {fuel : ℕ} {ret : ℤ}
    (hcall : listThreads env fuel leader st = some (ret, st'))
    (hoffered : (offered st'.trace).length ≤ (offered st.trace).length) :
    (firstTid env leader (s32 st.fVersion) (s32 (st.fPos - 2))
      { st with fVersion := 0 }).1 = none ∧ st.clock < st'.clock := by
  rw [listThreads, Option.map_eq_some_iff] at hcall
  obtain ⟨st₂, hloop, hst'⟩ := hcall
  cases hst'
  have hle := offered_threadLoop env fuel _ _ _ hloop
  have hclock := (firstTid_frame env leader (s32 st.fVersion) (s32 (st.fPos - 2))
    { st with fVersion := 0 }).1
  rw [offered_firstTid] at hle
  cases hfirst : (firstTid env leader (s32 st.fVersion) (s32 (st.fPos - 2))
      { st with fVersion := 0 }).1 with
  | some c =>
    rw [hfirst] at hle
    simp only [log_trace, offered_append, offered_put, offered_nil, List.append_nil] at hoffered
    simp at hle
    omega
  | none =>
    refine ⟨rfl, ?_⟩
    rw [hfirst] at hloop
    cases fuel with
    | zero => cases hloop
    | succ fuel =>
      rw [threadLoop, Option.some.injEq] at hloop
      rw [← hloop, log_clock, hclock]
      exact Nat.lt_succ_self _

/-- A call that offers nothing finds both `.` and `..` listed and no thread. -/
theorem procTaskReaddir_end (h : OfGroup env G leader) {fuel : ℕ}
    (hcall : procTaskReaddir env fuel st = some (0, st'))
    (hoffered : offered st'.trace = offered st.trace) :
    ∃ task, leader ∈ G.members (st.clock + 1) ∧ dotsLeft st.fPos = [] ∧ st.clock + 2 < st'.clock ∧
      (firstTid env leader (s32 st.fVersion) (s32 (st.fPos - 2))
        { withLeader leader task st with fVersion := 0 }).1 = none := by
  rcases procTaskReaddir_cases env fuel st with
    ⟨st'', hcall', -⟩ | ⟨task, leader', ok, st₁, hfound, hdots, hcall'⟩
  · rw [hcall'] at hcall
    cases hcall
  · obtain ⟨rfl, hleader⟩ := h.taskFound hfound
    have hfill := offered_fillDots env.filldir st.fPos (withLeader leader' task st)
    have hstart : offered (withLeader leader' task st).trace = offered st'.trace := by
      rw [hoffered]
      simp [withLeader]
    rw [hdots, hstart] at hfill
    rw [hcall'] at hcall
    have hmono : (offered st₁.trace).length ≤ (offered st'.trace).length := by
      cases ok with
      | false =>
        cases hcall
        simp
      | true =>
        rw [if_pos rfl, listThreads, Option.map_eq_some_iff] at hcall
        obtain ⟨st₂, hloop, hst'⟩ := hcall
        have hle := offered_threadLoop env fuel _ _ _ hloop
        rw [offered_firstTid] at hle
        cases hst'
        simpa using Nat.le_of_add_right_le hle
    have hnil : dotsLeft st.fPos = [] := by
      cases hleft : dotsLeft st.fPos with
      | nil => rfl
      | cons e es =>
        rw [hleft] at hfill
        simp at hfill
        omega
    rw [hnil] at hdots
    cases hdots
    rw [if_pos rfl] at hcall
    obtain ⟨hnone, hclock⟩ := listThreads_end hcall (by rw [hstart])
    exact ⟨task, hleader, hnil, hclock, hnone⟩

/-- **While no thread exits, a scan lists every one**: it lists them in their
order, without a gap; and when a call finds nothing more to offer, all threads of
the group have been listed. -/
theorem thread_scan_complete (h : OfGroup env G leader)
    (hR : ∀ t, ∀ x ∈ G.members t, G.rank x < R) (hsmall : R + 2 < 2 ^ 31) {fuel : ℕ}
    (hfuel : R < fuel) (hgrow : G.Growing)
    (hcount : ∀ t, ((G.members t).length : ℤ) ≤ getNrThreads env t leader)
    (calls : List Unit) :
    ∃ st, run (readThreads env fuel) start calls = some st ∧
      (accepted st.trace <+: dots ∨ ∃ es l, accepted st.trace = dots ++ es ∧
        List.Forall₂ (Shows env) es l ∧ l <+: G.members st.clock) ∧
      ∀ st', procTaskReaddir env fuel st = some (0, st') →
        offered st'.trace = offered st.trace →
        ∃ es t, st.clock ≤ t ∧ t < st'.clock ∧ accepted st.trace = dots ++ es ∧
          List.Forall₂ (Shows env) es (G.members t) := by
  obtain ⟨st, hr, hI⟩ := run_resumes h hR hsmall hfuel calls
  refine ⟨st, hr, ?_, ?_⟩
  · rcases hI with ⟨d, -, hacc, -, -⟩ | ⟨l, hs, -⟩
    · left
      rw [hacc]
      exact List.take_prefix d dots
    · obtain ⟨es, hes, hshows⟩ := hs.shown
      exact Or.inr ⟨es, l, hes, hshows, hs.listed.whole hgrow⟩
  · intro st' hcall hoffered
    obtain ⟨task, hleader, hnil, hclock, hnone⟩ := procTaskReaddir_end h hcall hoffered
    rcases hI with ⟨d, hd, -, hpos, -⟩ | ⟨l, hs, hw⟩
    · -- an entry of the first two would be left
      rw [hpos, dotsLeft_of_lt (by omega), List.drop_eq_nil_iff] at hnil
      exact absurd hnil (by show ¬ 2 ≤ d; omega)
    · have hlen := hs.listed.length_le hR
      rw [s32_version hw, s32_place hs (by omega)] at hnone
      have hstays : leader ∈ G.members (st.clock + 2) :=
        (hgrow _ _ (Nat.le_succ _)).subset hleader
      have hall := firstTid_none h hstays (hcount _) hnone
      obtain ⟨es, hes, hshows⟩ := hs.shown
      have hpre := (hs.listed.whole hgrow).trans (hgrow st.clock (st.clock + 2) (by omega))
      have hl : l = G.members (st.clock + 2) := hpre.eq_of_length_le hall
      exact ⟨es, st.clock + 2, by omega, hclock, hes, hl ▸ hshows⟩

/-- The three threads are all listed when the fifth call finds no more. -/
theorem thread_scan_complete_of_three :
    ∃ st, run (readThreads threeThreads 5) start [(), (), (), ()] = some st ∧
      (accepted st.trace <+: dots ∨ ∃ es l, accepted st.trace = dots ++ es ∧
        List.Forall₂ (Shows threeThreads) es l ∧ l <+: threeMembers.members st.clock) ∧
      ∀ st', procTaskReaddir threeThreads 5 st = some (0, st') →
        offered st'.trace = offered st.trace →
        ∃ es t, st.clock ≤ t ∧ t < st'.clock ∧ accepted st.trace = dots ++ es ∧
          List.Forall₂ (Shows threeThreads) es (threeMembers.members t) :=
  thread_scan_complete threeThreads_ofGroup threeMembers_rank (by decide) (by decide)
    (fun _ _ _ => List.prefix_rfl) (fun _ => le_rfl) _

end Dir
end Proc
end KernelStudy
