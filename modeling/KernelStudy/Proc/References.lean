import KernelStudy.Proc.Scan

/-!
# The task references of a scan

A call of `proc_pid_readdir` takes a reference to the reaper and keeps it to the
end.  The scan holds one more, to the task it is at: `next_tgid` drops that of
the task before and takes one to the task it finds, and a refused entry drops the
last one before the loop is left.  Process 1 is the reaper, so while the scan is
there the call holds two references to one task.  An entry that is not in the dentry
cache yet is made after the hook has been called; the task at the pid of the
process is then referenced for a moment, and it may be another one by now.

The discipline is a small machine over the acts of a call.  The code is shown to
follow it, and what the call holds is then read off the phase it is in.

## Main definitions

* `Phase`, `refStep` — the discipline.
* `held` — the references taken in a trace and not dropped.
* `Follows` — a call goes on as the discipline says.
* `AtMostOne`, `Making` — one task besides the reaper is referenced, or one more
  while an entry is made.

## Main results

* `refStep_eq_some_iff` — everything the discipline allows.
* `held_of_run` — what is held in each phase.
* `nextTgid_follows`, `scanLoop_follows`, `procPidReaddir_follows` — the code
  follows the discipline.
* `references_balanced` — **the references of a call.**
-/

namespace KernelStudy
namespace Proc

/-! ### The discipline -/

/-- What a call is at. -/
inductive Phase where
  /-- It holds nothing. -/
  | idle
  /-- It holds the reaper and perhaps the task of the scan. -/
  | scanning (task : Option TaskPtr)
  /-- The hook has been called for the task. -/
  | filling (task : TaskPtr)
  /-- The entry is made, with the task `x` found at the pid of the task. -/
  | making (task x : TaskPtr)

open Classical in
/-- The acts that are allowed in a phase, if `atPid` says what task may be found at the
pid of another. -/
noncomputable def refStep (reaper : Option TaskPtr) (atPid : TaskPtr → TaskPtr → Prop) :
    Phase → Act → Option Phase
  | .idle, .get task => if reaper = some task then some (.scanning none) else none
  | .scanning none, .get task => some (.scanning (some task))
  | .scanning none, .put task => if reaper = some task then some .idle else none
  | .scanning cur, .fill _ _ => some (.scanning cur)
  | .scanning (some task), .hook iter =>
      if iter.task = some task then some (.filling task) else none
  | .scanning (some task), .put task' => if task' = task then some (.scanning none) else none
  | .filling task, .get x => if atPid task x then some (.making task x) else none
  | .filling task, .fill _ _ => some (.scanning (some task))
  | .making task x, .put x' => if x' = x then some (.scanning (some task)) else none
  | _, _ => none

/-- The allowed acts, one constructor for each kind. -/
inductive Allowed (reaper : Option TaskPtr) (atPid : TaskPtr → TaskPtr → Prop) :
    Phase → Act → Phase → Prop
  | opened (task : TaskPtr) (h : reaper = some task) :
      Allowed reaper atPid .idle (.get task) (.scanning none)
  | found (task : TaskPtr) :
      Allowed reaper atPid (.scanning none) (.get task) (.scanning (some task))
  | closed (task : TaskPtr) (h : reaper = some task) :
      Allowed reaper atPid (.scanning none) (.put task) .idle
  | filled (cur : Option TaskPtr) (entry : Dirent) (ret : ℤ) :
      Allowed reaper atPid (.scanning cur) (.fill entry ret) (.scanning cur)
  | hooked (task : TaskPtr) (iter : TgidIter) (h : iter.task = some task) :
      Allowed reaper atPid (.scanning (some task)) (.hook iter) (.filling task)
  | dropped (task : TaskPtr) :
      Allowed reaper atPid (.scanning (some task)) (.put task) (.scanning none)
  | looked (task x : TaskPtr) (h : atPid task x) :
      Allowed reaper atPid (.filling task) (.get x) (.making task x)
  | cached (task : TaskPtr) (entry : Dirent) (ret : ℤ) :
      Allowed reaper atPid (.filling task) (.fill entry ret) (.scanning (some task))
  | made (task x : TaskPtr) :
      Allowed reaper atPid (.making task x) (.put x) (.scanning (some task))

/-- One for the task itself. -/
def one (o : Option TaskPtr) (task : TaskPtr) : ℤ := if o = some task then 1 else 0

/-- The references held in a phase. -/
def Phase.refs (reaper : Option TaskPtr) : Phase → TaskPtr → ℤ
  | .idle, _ => 0
  | .scanning cur, task => one reaper task + one cur task
  | .filling cur, task => one reaper task + one (some cur) task
  | .making cur x, task => one reaper task + one (some cur) task + one (some x) task

/-- What an act adds to the references to a task. -/
def Act.delta : Act → TaskPtr → ℤ
  | .get task', task => one (some task') task
  | .put task', task => -one (some task') task
  | _, _ => 0

/-- The references to a task that are taken in a trace and not dropped. -/
def held (trace : List Act) (task : TaskPtr) : ℤ := (trace.map (Act.delta · task)).sum

variable {reaper : Option TaskPtr} {atPid atPid' : TaskPtr → TaskPtr → Prop}
  {phase phase' : Phase} {a : Act}

/-- **Everything the discipline allows.** -/
theorem refStep_eq_some_iff :
    refStep reaper atPid phase a = some phase' ↔ Allowed reaper atPid phase a phase' := by
  constructor
  · intro h
    unfold refStep at h
    split at h
    · next task =>
      split at h
      · next hreaper => exact Option.some.inj h ▸ .opened task hreaper
      · cases h
    · next task => exact Option.some.inj h ▸ .found task
    · next task =>
      split at h
      · next hreaper => exact Option.some.inj h ▸ .closed task hreaper
      · cases h
    · next cur entry ret => exact Option.some.inj h ▸ .filled cur entry ret
    · next task iter =>
      split at h
      · next htask => exact Option.some.inj h ▸ .hooked task iter htask
      · cases h
    · next task task' =>
      split at h
      · next heq => exact Option.some.inj h ▸ heq ▸ .dropped task'
      · cases h
    · next task x =>
      split at h
      · next hx => exact Option.some.inj h ▸ .looked task x hx
      · cases h
    · next task entry ret => exact Option.some.inj h ▸ .cached task entry ret
    · next task x x' =>
      split at h
      · next heq => exact Option.some.inj h ▸ heq ▸ .made task x'
      · cases h
    · cases h
  · intro h
    cases h with
    | opened task h => exact if_pos h
    | found task => rfl
    | closed task h => exact if_pos h
    | filled cur entry ret => cases cur <;> rfl
    | hooked task iter h => exact if_pos h
    | dropped task => exact if_pos rfl
    | looked task x h => exact if_pos h
    | cached task entry ret => rfl
    | made task x => exact if_pos rfl

/-- An allowed act changes what is held as the phase says. -/
theorem Allowed.refs_eq (h : Allowed reaper atPid phase a phase') (task : TaskPtr) :
    phase'.refs reaper task = phase.refs reaper task + a.delta task := by
  cases h with
  | opened task' h => simp [Phase.refs, Act.delta, h, one]
  | found task' => simp [Phase.refs, Act.delta, one]
  | closed task' h => simp [Phase.refs, Act.delta, h, one]
  | filled cur entry ret => simp [Act.delta]
  | hooked task' iter h => simp [Phase.refs, Act.delta]
  | dropped task' => simp [Phase.refs, Act.delta, one]
  | looked task' x h => simp [Phase.refs, Act.delta]
  | cached task' entry ret => simp [Phase.refs, Act.delta]
  | made task' x => simp [Phase.refs, Act.delta]

/-- Who may find more is allowed more. -/
theorem Allowed.mono (hmono : ∀ task x, atPid task x → atPid' task x)
    (h : Allowed reaper atPid phase a phase') : Allowed reaper atPid' phase a phase' := by
  cases h with
  | opened task h => exact .opened task h
  | found task => exact .found task
  | closed task h => exact .closed task h
  | filled cur entry ret => exact .filled cur entry ret
  | hooked task iter h => exact .hooked task iter h
  | dropped task => exact .dropped task
  | looked task x h => exact .looked task x (hmono task x h)
  | cached task entry ret => exact .cached task entry ret
  | made task x => exact .made task x

/-- **What is held after the acts of a trace**, from any phase on. -/
theorem held_of_run : ∀ (trace : List Act) (phase phase' : Phase),
    run (refStep reaper atPid) phase trace = some phase' →
      ∀ task, held trace task = phase'.refs reaper task - phase.refs reaper task := by
  intro trace
  induction trace with
  | nil =>
    intro phase phase' h task
    rw [run_nil, Option.some.injEq] at h
    simp [held, h]
  | cons a trace ih =>
    intro phase phase' h task
    obtain ⟨mid, hstep, hrest⟩ := run_cons_eq_some.mp h
    have hrefs := (refStep_eq_some_iff.mp hstep).refs_eq task
    have htail := ih mid phase' hrest task
    simp only [held, List.map_cons, List.sum_cons] at htail ⊢
    omega

/-! ### The code follows it -/

/-- The state a call ends in. -/
def Outcome.st : Outcome → St
  | .returned st => st
  | .oops st => st

/-- The phase a call ends in. -/
def Outcome.EndsIn : Outcome → Phase → Prop
  | .returned _, phase => phase = .idle
  | .oops _, phase => ∃ task, phase = .filling task

variable {L : PidLimit} {env : Env L} {hook : NormalHook} {lo : ℕ} {base : List Act} {st st' : St}

/-- The acts since `base`, from moment `lo` on, follow the discipline and lead into
`phase`. -/
structure Follows (env : Env L) (reaper : Option TaskPtr) (lo : ℕ) (base : List Act) (st : St)
    (phase : Phase) : Prop where
  le : lo ≤ st.clock
  acts : ∃ seg, st.trace = base ++ seg ∧
    run (refStep reaper (Dir.AtPidOf env.toTaskEnv lo st.clock)) .idle seg = some phase

/-- More acts follow, while time passes. -/
theorem Follows.append (h : Follows env reaper lo base st phase) {acts : List Act}
    (hclock : st.clock ≤ st'.clock) (htrace : st'.trace = st.trace ++ acts)
    (hrun : run (refStep reaper (Dir.AtPidOf env.toTaskEnv lo st'.clock)) phase acts =
      some phase') : Follows env reaper lo base st' phase' where
  le := h.le.trans hclock
  acts := by
    obtain ⟨seg, hseg, hphase⟩ := h.acts
    refine ⟨seg ++ acts, ?_, run_append.mpr ⟨phase, ?_, hrun⟩⟩
    · rw [htrace, hseg, List.append_assoc]
    · refine run_mono ?_ seg _ _ hphase
      intro s a s' hstep
      refine refStep_eq_some_iff.mpr ((refStep_eq_some_iff.mp hstep).mono ?_)
      rintro task x ⟨t, t', pid, hlo, hlt, hhi, hpid⟩
      exact ⟨t, t', pid, hlo, hlt, hhi.trans_le hclock, hpid⟩

theorem Follows.tick (h : Follows env reaper lo base st phase) :
    Follows env reaper lo base st.tick phase := by
  have htrace : st.tick.trace = st.trace ++ [] := (List.append_nil _).symm
  exact h.append (Nat.le_succ _) htrace rfl

theorem Follows.seek (h : Follows env reaper lo base st phase) (n : ℤ) :
    Follows env reaper lo base { st with fPos := n } phase := ⟨h.le, h.acts⟩

theorem Follows.log (h : Follows env reaper lo base st phase)
    (hstep : Allowed reaper (Dir.AtPidOf env.toTaskEnv lo st.clock) phase a phase') :
    Follows env reaper lo base (st.log a) phase' :=
  h.append le_rfl rfl (run_cons_eq_some.mpr ⟨phase', refStep_eq_some_iff.mpr hstep, rfl⟩)

/-- `next_tgid` holds nothing at `retry`, and the task it returns. -/
theorem retry_follows : ∀ (fuel tgid : ℕ) (st : St) (iter : TgidIter) (st' : St),
    Follows env reaper lo base st (.scanning none) → retry env fuel tgid st = some (iter, st') →
      Follows env reaper lo base st' (.scanning iter.task) := by
  intro fuel
  induction fuel with
  | zero => intro tgid st iter st' _ h; cases h
  | succ fuel ih =>
    intro tgid st iter st' hf h
    rw [retry] at h
    split at h
    · cases h
      exact hf.tick
    · split at h
      · -- no leader: the search goes on without a reference
        exact ih _ st.tick _ _ hf.tick h
      · cases h
        exact hf.tick.log (.found _)

/-- **`next_tgid` hands its reference over.** -/
theorem nextTgid_follows {fuel : ℕ} {iter iter' : TgidIter}
    (hf : Follows env reaper lo base st (.scanning iter.task))
    (h : nextTgid env fuel iter st = some (iter', st')) :
    Follows env reaper lo base st' (.scanning iter'.task) := by
  unfold nextTgid at h
  split at h
  · next htask =>
    rw [htask] at hf
    exact retry_follows _ _ _ _ _ hf h
  · next task htask =>
    rw [htask] at hf
    exact retry_follows _ _ (st.log (.put task)) _ _ (hf.log (.dropped task)) h

/-- The fixed entries take no task reference. -/
theorem baseLoop_follows {task : TaskPtr} : ∀ (names : List String) (st : St) (done : Bool)
    (st' : St), Follows env reaper lo base st (.scanning none) →
      baseLoop env task names st = (done, st') →
      Follows env reaper lo base st' (.scanning none) := by
  intro names
  induction names with
  | nil =>
    intro st done st' hf h
    cases h
    exact hf
  | cons name names ih =>
    intro st done st' hf h
    have hfill : Follows env reaper lo base (procBaseFillCache env task name st).2
        (.scanning none) :=
      hf.append (procBaseFillCache_hands env task name st).clock.le
        (procBaseFillCache_trace env task name st) rfl
    rw [baseLoop] at h
    dsimp only at h
    split at h
    · cases h
      exact hfill
    · exact ih _ _ _ (hfill.seek _) h

/-- **Filling the entry of a process** holds the task at its pid for a moment. -/
theorem procPidFillCache_follows {task : TaskPtr} (tgid : ℕ)
    (hf : Follows env reaper lo base st (.filling task)) :
    Follows env reaper lo base (procPidFillCache env tgid task st).2 (.scanning (some task)) := by
  have hclock := (procPidFillCache_hands env tgid task st).clock.le
  rcases procPidFillCache_trace env tgid task st with htrace | ⟨x, htrace, t, t', pid, ht, hrest⟩
  · exact hf.append hclock htrace rfl
  · have hfound : Dir.AtPidOf env.toTaskEnv lo (procPidFillCache env tgid task st).2.clock task x :=
      ⟨t, t', pid, hf.le.trans ht, hrest⟩
    refine hf.append hclock htrace ?_
    refine run_cons_eq_some.mpr ⟨_, refStep_eq_some_iff.mpr (.looked task x hfound), ?_⟩
    exact run_cons_eq_some.mpr ⟨_, refStep_eq_some_iff.mpr (.made task x), rfl⟩

/-- Where a call is when the loop over the processes is left. -/
def Outcome.Leaves (env : Env L) (reaper : Option TaskPtr) (lo : ℕ) (base : List Act) :
    Outcome → Prop
  | .returned st => Follows env reaper lo base st (.scanning none)
  | .oops st => ∃ task, Follows env reaper lo base st (.filling task)

/-- **The loop over the processes leaves only the reaper referenced**, unless the
hook faults in it. -/
theorem scanLoop_follows (inner : ℕ) : ∀ (fuel : ℕ) (iter : TgidIter) (st : St) (out : Outcome),
    Follows env reaper lo base st (.scanning iter.task) →
      scanLoop env hook inner fuel iter st = some out → out.Leaves env reaper lo base := by
  intro fuel
  induction fuel with
  | zero => intro iter st out _ h; cases h
  | succ fuel ih =>
    intro iter st out hf h
    cases htask : iter.task with
    | none =>
      rw [scanLoop, htask] at h
      cases h
      rw [htask] at hf
      exact hf.seek _
    | some task =>
      rw [htask] at hf
      have hhook : Follows env reaper lo base (hooked iter st) (.filling task) :=
        hf.append le_rfl rfl
          (run_cons_eq_some.mpr ⟨_, refStep_eq_some_iff.mpr (.hooked task iter htask), rfl⟩)
      have hasked : Follows env reaper lo base (asked env iter task st).2 (.scanning (some task)) :=
        procPidFillCache_follows iter.tgid hhook.tick
      rw [scanLoop_succ htask] at h
      split at h
      · split at h
        · cases h
          exact hasked.log (.dropped task)
        · obtain ⟨⟨iter', st'⟩, hnext, hscan⟩ := Option.bind_eq_some_iff.mp h
          rw [htask] at hnext
          exact ih _ _ _ (nextTgid_follows hasked hnext) hscan
      · cases h
        exact ⟨task, hhook⟩

/-- **A call follows the discipline** for the reaper it finds, and holds nothing
when it returns. -/
theorem procPidReaddir_follows {fuel : ℕ} {out : Outcome}
    (h : procPidReaddir env fuel hook st = some out) :
    ∃ phase, Follows env (env.reaper st.clock) st.clock st.trace out.st phase ∧
      out.EndsIn phase := by
  have hstart : Follows env (env.reaper st.clock) st.clock st.trace st .idle :=
    ⟨le_rfl, [], (List.append_nil _).symm, rfl⟩
  unfold procPidReaddir at h
  dsimp only at h
  cases hreaper : env.reaper st.clock with
  | none =>
    rw [hreaper] at h hstart
    cases h
    exact ⟨.idle, hstart.tick, rfl⟩
  | some reaper =>
    rw [hreaper] at h hstart
    dsimp only at h
    have hopen : Follows env (some reaper) st.clock st.trace (st.tick.log (.get reaper))
        (.scanning none) := hstart.tick.log (.opened reaper rfl)
    split at h
    · next st₁ hbase =>
      -- refused in the fixed entries
      cases h
      have hf := baseLoop_follows _ _ _ _ hopen hbase
      exact ⟨.idle, hf.log (.closed reaper rfl), rfl⟩
    · next st₁ hbase =>
      have hf := baseLoop_follows _ _ _ _ hopen hbase
      split at h
      · cases h
      · next iter st₂ hnext =>
        have hf₂ := nextTgid_follows hf hnext
        split at h
        · cases h
        · next st₃ hout =>
          cases h
          obtain ⟨task, hf₃⟩ := scanLoop_follows fuel _ _ _ _ hf₂ hout
          exact ⟨_, hf₃, task, rfl⟩
        · next st₃ hout =>
          cases h
          have hf₃ : Follows env (some reaper) st.clock st.trace st₃ (.scanning none) :=
            scanLoop_follows fuel _ _ _ _ hf₂ hout
          exact ⟨.idle, hf₃.log (.closed reaper rfl), rfl⟩

/-! ### The references of a call -/

deriving instance DecidableEq for TgidIter, Act

/-- The last act of a trace that follows the discipline. -/
theorem run_concat {pre : List Act}
    (h : run (refStep reaper atPid) .idle (pre ++ [a]) = some phase') :
    ∃ phase, run (refStep reaper atPid) .idle pre = some phase ∧
      Allowed reaper atPid phase a phase' := by
  obtain ⟨phase, hpre, hlast⟩ := run_append.mp h
  obtain ⟨phase'', hstep, hnil⟩ := run_cons_eq_some.mp hlast
  cases hnil
  exact ⟨phase, hpre, refStep_eq_some_iff.mp hstep⟩

/-- Before an entry is made the hook is called for its task. -/
theorem last_of_filling {pre : List Act} {task : TaskPtr}
    (h : run (refStep reaper atPid) .idle pre = some (.filling task)) :
    ∃ pre' iter, pre = pre' ++ [.hook iter] ∧ iter.task = some task := by
  rcases List.eq_nil_or_concat pre with rfl | ⟨pre', a, rfl⟩
  · cases h
  · rw [List.concat_eq_append] at h ⊢
    obtain ⟨phase, -, hstep⟩ := run_concat h
    cases hstep with
    | hooked _ iter htask => exact ⟨pre', iter, rfl, htask⟩

/-- An entry is made with the task at the pid of the one the hook was called for. -/
theorem last_of_making {pre : List Act} {task x : TaskPtr}
    (h : run (refStep reaper atPid) .idle pre = some (.making task x)) :
    ∃ pre' iter, pre = pre' ++ [.hook iter, .get x] ∧ iter.task = some task ∧ atPid task x := by
  rcases List.eq_nil_or_concat pre with rfl | ⟨pre', a, rfl⟩
  · cases h
  · rw [List.concat_eq_append] at h ⊢
    obtain ⟨phase, hpre, hstep⟩ := run_concat h
    cases hstep with
    | looked _ _ hx =>
      obtain ⟨pre'', iter, rfl, htask⟩ := last_of_filling hpre
      exact ⟨pre'', iter, List.append_assoc .., htask, hx⟩

/-- What is held at any moment of a call, and how it goes on from there. -/
theorem held_at_moment {pre seg : List Act}
    (hrun : run (refStep reaper atPid) .idle seg = some phase') (hpre : pre <+: seg) :
    ∃ phase, run (refStep reaper atPid) .idle pre = some phase ∧
      (∀ task, held pre task = phase.refs reaper task) ∧
      ∃ post, seg = pre ++ post ∧ run (refStep reaper atPid) phase post = some phase' := by
  obtain ⟨post, rfl⟩ := hpre
  obtain ⟨phase, hphase, hpost⟩ := run_append.mp hrun
  refine ⟨phase, hphase, fun task => ?_, post, rfl, hpost⟩
  rw [held_of_run pre _ _ hphase task, Phase.refs, sub_zero]

/-- At most one task besides the reaper is referenced. -/
def AtMostOne (reaper : Option TaskPtr) (trace : List Act) : Prop :=
  ∀ task task', reaper ≠ some task → reaper ≠ some task' →
    held trace task ≠ 0 → held trace task' ≠ 0 → task = task'

/-- The entry of the process that the hook was called for just now is being made: a
reference is taken to the task `x` that is found at the pid of its task, and dropped by
the next act; besides, there are those on the task and on the reaper. -/
structure Making (env : Env L) (lo hi : ℕ) (reaper : Option TaskPtr) (seg pre : List Act)
    (task x : TaskPtr) : Prop where
  taken : ∃ pre' iter, pre = pre' ++ [.hook iter, .get x] ∧ iter.task = some task
  dropped : pre ++ [.put x] <+: seg
  atPid : Dir.AtPidOf env.toTaskEnv lo hi task x
  held_eq : ∀ y, held pre y = one reaper y + one (some task) y + one (some x) y

/-- **What is referenced at any moment of a call.** -/
theorem atMostOne_or_making {hi : ℕ} {pre seg : List Act} {out : Outcome} {phase' : Phase}
    (hrun : run (refStep reaper (Dir.AtPidOf env.toTaskEnv lo hi)) .idle seg = some phase')
    (hend : out.EndsIn phase') (hpre : pre <+: seg) :
    AtMostOne reaper pre ∨ ∃ task x, Making env lo hi reaper seg pre task x := by
  obtain ⟨phase, hphase, hheld, post, hseg, hpost⟩ := held_at_moment hrun hpre
  -- what is not the reaper is the task of the scan
  have hone : ∀ cur, (∀ y, phase.refs reaper y = one reaper y + one cur y) →
      AtMostOne reaper pre := by
    intro cur hrefs task task' hne hne' h h'
    rw [hheld, hrefs] at h h'
    simp only [one, if_neg hne, if_neg hne', zero_add, ne_eq, ite_eq_right_iff, not_forall] at h h'
    exact Option.some.inj (h.1.symm.trans h'.1)
  cases phase with
  | idle =>
    left
    intro task _ _ _ h
    exact absurd (hheld task) h
  | scanning cur => exact Or.inl (hone cur fun _ => rfl)
  | filling cur => exact Or.inl (hone (some cur) fun _ => rfl)
  | making task x =>
    right
    obtain ⟨pre', iter, htaken, htask, hx⟩ := last_of_making hphase
    refine ⟨task, x, ⟨pre', iter, htaken, htask⟩, ?_, hx, hheld⟩
    cases post with
    | nil =>
      -- the call does not end here
      cases hpost
      cases out with
      | returned st' => cases hend
      | oops st' =>
        obtain ⟨task', htask'⟩ := hend
        cases htask'
    | cons a post =>
      obtain ⟨phase'', hstep, -⟩ := run_cons_eq_some.mp hpost
      cases refStep_eq_some_iff.mp hstep with
      | made _ _ =>
        refine ⟨post, ?_⟩
        rw [hseg, List.append_assoc]
        rfl

/-- **The task references of one call** of `proc_pid_readdir`, in any surroundings
and from any position.  When the hook is called, the scan is at a task, and the
call holds one reference to it besides the one that it holds on the reaper; at no
moment is more than one task besides the reaper referenced, except that while an entry
is made the task at the pid of its process is referenced too; and when the call
returns, every task has got as many puts as gets.  If the hook returns, so does
the call. -/
theorem references_balanced (env : Env L) (hook : NormalHook) (st : St) :
    (∀ fuel out, procPidReaddir env fuel hook st = some out →
      ∃ seg, out.st.trace = st.trace ++ seg ∧
        (∀ pre iter, pre ++ [.hook iter] <+: seg → ∃ task, iter.task = some task ∧
          held pre task = 1 + one (env.reaper st.clock) task) ∧
        (∀ pre, pre <+: seg → AtMostOne (env.reaper st.clock) pre ∨
          ∃ task x, Making env st.clock out.st.clock (env.reaper st.clock) seg pre task x) ∧
        (∀ st', out = .returned st' → ∀ task, held seg task = 0)) ∧
    ((∀ frame, (hook.body frame).isSome) → ∀ fuel, L.value < fuel →
      ∃ st', procPidReaddir env fuel hook st = some (.returned st')) := by
  constructor
  · intro fuel out hout
    obtain ⟨phase, hf, hend⟩ := procPidReaddir_follows hout
    obtain ⟨seg, htrace, hrun⟩ := hf.acts
    refine ⟨seg, htrace, ?_, fun pre hpre => atMostOne_or_making hrun hend hpre, ?_⟩
    · intro pre iter hpre
      obtain ⟨mid, hmid, -⟩ := held_at_moment hrun hpre
      obtain ⟨before, hbefore, hstep⟩ := run_concat hmid
      cases hstep with
      | hooked task _ htask =>
        refine ⟨task, htask, ?_⟩
        have hheld := held_of_run pre _ _ hbefore task
        simp only [Phase.refs, one, if_true] at hheld ⊢
        omega
    · rintro st' rfl task
      have hidle : phase = .idle := hend
      rw [hidle] at hrun
      rw [held_of_run seg _ _ hrun task, sub_self]
  · intro hhook fuel hfuel
    obtain ⟨st', hcall⟩ := exists_call env st hhook hfuel
    unfold call at hcall
    split at hcall
    · next st'' hret => exact ⟨st'', hret⟩
    · cases hcall

/-- A directory that is read from the first process on, with the surroundings of
`churn`. -/
def atFirstProcess : St := ⟨2, tgidOffset, []⟩

/-- The scan of `churn` returns what it took. -/
theorem churn_references_balanced :
    ∃ st', procPidReaddir churn 0x8001 dummyInProcPidReaddir atFirstProcess =
        some (.returned st') ∧ ∀ task, held st'.trace task = 0 := by
  obtain ⟨hall, htotal⟩ := references_balanced churn dummyInProcPidReaddir atFirstProcess
  obtain ⟨st', hret⟩ := htotal (fun _ => rfl) 0x8001 (by decide)
  obtain ⟨seg, htrace, -, -, hzero⟩ := hall _ _ hret
  refine ⟨st', hret, fun task => ?_⟩
  rw [show st'.trace = seg from htrace]
  exact hzero st' rfl task

/-- Process 5 executes a program from its thread 6, which takes the pid of its leader
over at the moment 5; the leader keeps it, too, until it is released. -/
def execution : Env ⟨0x8000, le_pidMaxLimit⟩ where
  toCacheEnv :=
    { sameNumbers with
      pidTask := fun t pid => if pid = 5 ∧ 5 ≤ t then some 6 else some pid
      dLookup := fun _ => false }
  config := Dir.allOptions
  ns := fun t =>
    { pids := {1, 5}
      pidTask := fun nr => if nr = 5 ∧ 5 ≤ t then some 6 else some nr
      lt_limit := by decide }
  tasks := fun t task =>
    { pid := if task = 6 ∧ 5 ≤ t then 5 else task
      tgid := if task = 6 then 5 else task
      hpNode := -1
      hpBuf := fun _ => 0
      next := 0 }
  reaper := fun _ => some 1
  filldir := fun _ => 0
  current := fun _ => 1
  arg := fun _ => none

/-- The directory when it is read on from process 5. -/
def atProcessFive : St := ⟨0, 5 + tgidOffset, []⟩

/-- At process 1, which is the reaper, the call holds two references to the task; and
while the entry of process 5 is made, its old leader and the thread that has taken its
pid over are both referenced. -/
theorem references_beyond_the_scan :
    (¬ ∀ (L : PidLimit) (env : Env L) (hook : NormalHook) (st : St) (fuel : ℕ) (out : Outcome)
        (seg : List Act), (firstProcessEntry : ℤ) ≤ st.fPos →
      procPidReaddir env fuel hook st = some out → out.st.trace = st.trace ++ seg →
      ∀ pre iter, pre ++ [.hook iter] <+: seg →
        ∃ task, iter.task = some task ∧ held pre task = 1) ∧
    ¬ ∀ (L : PidLimit) (env : Env L) (hook : NormalHook) (st : St) (fuel : ℕ) (out : Outcome)
        (seg : List Act), (firstProcessEntry : ℤ) ≤ st.fPos →
      procPidReaddir env fuel hook st = some out → out.st.trace = st.trace ++ seg →
      ∀ pre, pre <+: seg → AtMostOne (env.reaper st.clock) pre := by
  constructor
  · intro h
    have hrun : (procPidReaddir churn 0x8001 dummyInProcPidReaddir atFirstProcess).map
        (fun out => out.st.trace.take 3) = some [.get 1, .get 1, .hook ⟨1, some 1⟩] := by
      decide +kernel
    obtain ⟨out, hout, htake⟩ := Option.map_eq_some_iff.mp hrun
    have hpre : [.get 1, .get 1] ++ [.hook ⟨1, some 1⟩] <+: out.st.trace := by
      have hprefix := List.take_prefix 3 out.st.trace
      rw [htake] at hprefix
      exact hprefix
    obtain ⟨task, htask, hheld⟩ := h _ churn _ atFirstProcess _ out out.st.trace (by decide) hout
      rfl _ _ hpre
    rw [← Option.some.inj htask] at hheld
    revert hheld
    decide
  · intro h
    have hrun : (procPidReaddir execution 0x8001 dummyInProcPidReaddir atProcessFive).map
        (fun out => out.st.trace.take 4) =
          some [.get 1, .get 5, .hook ⟨5, some 5⟩, .get 6] := by
      decide +kernel
    obtain ⟨out, hout, htake⟩ := Option.map_eq_some_iff.mp hrun
    have hpre := List.take_prefix 4 out.st.trace
    rw [htake] at hpre
    have hone := h _ execution _ atProcessFive _ out out.st.trace (by decide) hout rfl _ hpre 5 6
      (by decide) (by decide) (by decide) (by decide)
    exact absurd hone (by decide)

end Proc
end KernelStudy
