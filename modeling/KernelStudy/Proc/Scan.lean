import KernelStudy.Proc.Readdir

/-!
# What a scan of `/proc` lists

The position in `/proc` is `f_pos`, which counts the fixed entries and then the
process numbers.  A call picks the scan up where the last one was refused, and
the processes change meanwhile.  The scan is a sweep over the process numbers:
what it has passed and what was there all the time, it has listed.

## Main definitions

* `LeaderAt env t nr` — `nr` is a thread-group leader at moment `t`.
* `Steady env clock nr` — it is one at all moments before `clock`.
* `Progress env st ns pos` — `ns` has been listed, and the scan is at `pos`.
* `Resumable` — the invariant between two calls.

## Main results

* `retry_found`, `isSome_retry` — what `next_tgid` finds, and that it ends.
* `resumable_call`, `exists_call` — one call keeps the invariant, and ends.
* `readdir_scan` — **a scan neither loses nor repeats a process.**
-/

namespace KernelStudy
namespace Proc

variable {L : PidLimit} {env : Env L}

/-! ### Leaders -/

/-- `nr` is the pid of a thread-group leader at moment `t`. -/
def LeaderAt (env : Env L) (t nr : ℕ) : Prop :=
  nr ∈ (env.ns t).pids ∧ (leaderTask env t nr).isSome

/-- `nr` is the pid of a thread-group leader at all moments before `clock`. -/
def Steady (env : Env L) (clock nr : ℕ) : Prop := ∀ t < clock, LeaderAt env t nr

theorem steady_subset {clock clock' : ℕ} (h : clock ≤ clock') :
    {nr | Steady env clock' nr} ⊆ {nr | Steady env clock nr} :=
  fun _ hsteady t ht => hsteady t (lt_of_lt_of_le ht h)

theorem LeaderAt.lt {t nr : ℕ} (h : LeaderAt env t nr) : nr < L.value :=
  (env.ns t).lt_limit nr h.1

/-! ### `next_tgid` -/

/-- What `next_tgid` has found from `tgid` on: it has passed no number that was
a leader all the time, and it ends on a leader or after the last number. -/
structure Found (env : Env L) (tgid : ℕ) (st : St) (iter : TgidIter) (st' : St) : Prop where
  clock : st.clock < st'.clock
  fPos : st'.fPos = st.fPos
  accepted_eq : accepted st'.trace = accepted st.trace
  passed : ∀ k, tgid ≤ k → (iter.task.isSome → k < iter.tgid) →
    ∃ t, st.clock ≤ t ∧ t < st'.clock ∧ ¬ LeaderAt env t k
  found : iter.task.isSome →
    tgid ≤ iter.tgid ∧ ∃ t, st.clock ≤ t ∧ t < st'.clock ∧ LeaderAt env t iter.tgid

theorem u32_succ {nr : ℕ} (h : nr < L.value) : u32 ((nr : ℤ) + 1) = nr + 1 := by
  have := L.le
  have hcast : ((nr : ℤ) + 1) = ((nr + 1 : ℕ) : ℤ) := by push_cast; rfl
  rw [hcast]
  exact u32_of_lt (by omega)

/-- **What the loop of `next_tgid` finds.** -/
theorem retry_found : ∀ (fuel tgid : ℕ) (st : St) (iter : TgidIter) (st' : St),
    retry env fuel tgid st = some (iter, st') → Found env tgid st iter st' := by
  intro fuel
  induction fuel with
  | zero => intro tgid st iter st' h; cases h
  | succ fuel ih =>
    intro tgid st iter st' h
    rw [retry] at h
    split at h
    · next hfind =>
      -- no pid is left from `tgid` on
      cases h
      refine ⟨by simp, rfl, rfl, ?_, by simp⟩
      intro k hk _
      refine ⟨st.clock, le_rfl, by simp, fun hleader => ?_⟩
      have := leastGe_eq_none hfind k hleader.1
      omega
    · next nr hfind =>
      obtain ⟨hmem, hge, hleast⟩ := leastGe_eq_some hfind
      have hlt := (env.ns st.clock).lt_limit nr hmem
      have hbelow : ∀ k, tgid ≤ k → k < nr → ¬ LeaderAt env st.clock k := by
        intro k hk hk' hleader
        have := hleast k hleader.1 hk
        omega
      split at h
      · next hnone =>
        -- `nr` is no leader, and the search goes on behind it
        rw [u32_succ hlt] at h
        have hrest := ih _ _ _ _ h
        have hclock := hrest.clock
        simp only [tick_clock] at hclock
        refine ⟨by omega, hrest.fPos, hrest.accepted_eq, ?_, ?_⟩
        · intro k hk hpast
          rcases Nat.lt_or_ge nr k with hk' | hk'
          · obtain ⟨t, ht, ht', hnot⟩ := hrest.passed k hk' hpast
            simp only [tick_clock] at ht
            exact ⟨t, by omega, ht', hnot⟩
          · refine ⟨st.clock, le_rfl, by omega, ?_⟩
            rcases Nat.eq_or_lt_of_le hk' with rfl | hk'
            · intro hleader
              have := hleader.2
              rw [hnone] at this
              cases this
            · exact hbelow k hk hk'
        · intro hsome
          obtain ⟨hle, t, ht, ht', hleader⟩ := hrest.found hsome
          simp only [tick_clock] at ht
          exact ⟨by omega, t, by omega, ht', hleader⟩
      · next task htask =>
        cases h
        refine ⟨by simp, rfl, by simp, ?_, ?_⟩
        · intro k hk hpast
          exact ⟨st.clock, le_rfl, by simp, hbelow k hk (hpast rfl)⟩
        · intro _
          exact ⟨hge, st.clock, le_rfl, by simp, hmem, by rw [htask]; rfl⟩

/-- **The loop of `next_tgid` ends**: it moves up, and no pid reaches the limit. -/
theorem isSome_retry : ∀ (fuel tgid : ℕ) (st : St), L.value < fuel + tgid → 0 < fuel →
    (retry env fuel tgid st).isSome := by
  intro fuel
  induction fuel with
  | zero => intro tgid st _ h0; omega
  | succ fuel ih =>
    intro tgid st hfuel _
    rw [retry]
    split
    · rfl
    · next nr hfind =>
      obtain ⟨hmem, hge, -⟩ := leastGe_eq_some hfind
      have hlt := (env.ns st.clock).lt_limit nr hmem
      split
      · rw [u32_succ hlt]
        exact ih _ _ (by omega) (by omega)
      · rfl

theorem nextTgid_found {fuel : ℕ} {iter iter' : TgidIter} {st st' : St}
    (h : nextTgid env fuel iter st = some (iter', st')) : Found env iter.tgid st iter' st' := by
  unfold nextTgid at h
  split at h
  · exact retry_found _ _ _ _ _ h
  · have hf := retry_found _ _ _ _ _ h
    -- dropping the old task is not seen by `filldir`
    refine ⟨hf.clock, hf.fPos, ?_, hf.passed, hf.found⟩
    rw [hf.accepted_eq]
    simp

theorem exists_nextTgid (env : Env L) {fuel : ℕ} (iter : TgidIter) (st : St)
    (hfuel : L.value < fuel) : ∃ iter' st', nextTgid env fuel iter st = some (iter', st') := by
  have hsome : (nextTgid env fuel iter st).isSome := by
    unfold nextTgid
    split
    · exact isSome_retry _ _ _ (by omega) (by omega)
    · exact isSome_retry _ _ _ (by omega) (by omega)
  obtain ⟨⟨iter', st'⟩, h⟩ := Option.isSome_iff_exists.mp hsome
  exact ⟨iter', st', h⟩

/-! ### Progress of a scan -/

/-- The processes `ns` have been listed after the fixed entry, and the scan is
at `pos`: it has listed every steady leader below. -/
structure Progress (env : Env L) (st : St) (ns : List ℕ) (pos : ℕ) : Prop where
  started : 0 < st.clock
  accepted_eq : accepted st.trace = .base "self" :: ns.map .process
  swept : Swept {nr | Steady env st.clock nr} ns pos
  leaders : ∀ nr ∈ ns, ∃ t < st.clock, LeaderAt env t nr
  le : pos ≤ L.value

/-- Where the loop over the processes stands. -/
def iterPos (L : PidLimit) (iter : TgidIter) : ℕ :=
  if iter.task.isSome then iter.tgid else L.value

variable {st st' : St} {ns : List ℕ} {pos : ℕ}

/-- Time passes, and leaders go. -/
theorem Progress.later (h : Progress env st ns pos) (hclock : st.clock ≤ st'.clock)
    (hacc : accepted st'.trace = accepted st.trace) : Progress env st' ns pos where
  started := lt_of_lt_of_le h.started hclock
  accepted_eq := hacc.trans h.accepted_eq
  swept := h.swept.mono (steady_subset hclock)
  leaders := by
    intro nr hnr
    obtain ⟨t, ht, hleader⟩ := h.leaders nr hnr
    exact ⟨t, lt_of_lt_of_le ht hclock, hleader⟩
  le := h.le

/-- `next_tgid` moves the scan on. -/
theorem Progress.found {iter : TgidIter} (h : Progress env st ns pos)
    (hf : Found env pos st iter st') : Progress env st' ns (iterPos L iter) := by
  have hlater := h.later hf.clock.le hf.accepted_eq
  have hpos : pos ≤ iterPos L iter ∧ iterPos L iter ≤ L.value := by
    unfold iterPos
    split
    · next hsome =>
      obtain ⟨hle, t, -, -, hleader⟩ := hf.found hsome
      exact ⟨hle, hleader.lt.le⟩
    · exact ⟨h.le, le_rfl⟩
  refine ⟨hlater.started, hlater.accepted_eq, hlater.swept.skip hpos.1 ?_, hlater.leaders, hpos.2⟩
  -- a number that was passed was no leader at some moment
  intro k hk hk' hsteady
  obtain ⟨t, -, ht, hnot⟩ := hf.passed k hk fun hsome => by
    rwa [iterPos, if_pos hsome] at hk'
  exact hnot (hsteady t ht)

/-- A leader is listed. -/
theorem Progress.emit (h : Progress env st ns pos) (hclock : st.clock ≤ st'.clock)
    (hacc : accepted st'.trace = accepted st.trace ++ [.process pos])
    (hleader : ∃ t < st.clock, LeaderAt env t pos) :
    Progress env st' (ns ++ [pos]) (pos + 1) where
  started := lt_of_lt_of_le h.started hclock
  accepted_eq := by
    rw [hacc, h.accepted_eq]
    simp
  swept := by
    refine (h.swept.mono (steady_subset hclock)).emit (Nat.lt_succ_self pos) ?_
    intro a h₁ h₂
    omega
  leaders := by
    intro nr hnr
    have hsome : ∃ t < st.clock, LeaderAt env t nr := by
      rcases List.mem_append.mp hnr with hnr | hnr
      · exact h.leaders nr hnr
      · rwa [List.mem_singleton.mp hnr]
    obtain ⟨t, ht, hl⟩ := hsome
    exact ⟨t, lt_of_lt_of_le ht hclock, hl⟩
  le := by
    obtain ⟨t, -, hl⟩ := hleader
    exact hl.lt

/-- **At the end every steady leader has been listed once.** -/
theorem Progress.count_process (h : Progress env st ns L.value) {nr : ℕ}
    (hsteady : Steady env st.clock nr) : (accepted st.trace).count (.process nr) = 1 := by
  have hlt : nr < L.value := (hsteady 0 h.started).lt
  rw [h.accepted_eq, List.count_cons_of_ne (by simp),
    List.count_map_of_injective _ _ fun _ _ heq => Dirent.process.inj heq]
  exact h.swept.count_eq_one hsteady hlt

/-! ### The loop over the processes -/

variable {hook : NormalHook} {inner : ℕ}

theorem u32_offset (h : pos ≤ L.value) : u32 ((pos : ℤ) + tgidOffset) = pos + tgidOffset := by
  have := L.le
  have hoff : tgidOffset = 257 := rfl
  have hcast : ((pos : ℤ) + tgidOffset) = ((pos + tgidOffset : ℕ) : ℤ) := by push_cast; rfl
  rw [hcast]
  exact u32_of_lt (by omega)

/-- **The loop lists what it passes**, and leaves `f_pos` where a later call has to
go on. -/
theorem scanLoop_progress : ∀ (fuel : ℕ) (iter : TgidIter) (st st' : St) (ns : List ℕ),
    Progress env st ns (iterPos L iter) →
    (iter.task.isSome → ∃ t < st.clock, LeaderAt env t iter.tgid) →
    scanLoop env hook inner fuel iter st = some (.returned st') →
    ∃ (ns' : List ℕ) (pos' : ℕ), st'.fPos = pos' + tgidOffset ∧ Progress env st' ns' pos' := by
  intro fuel
  induction fuel with
  | zero => intro iter st st' ns _ _ h; cases h
  | succ fuel ih =>
    intro iter st st' ns hp hl h
    cases htask : iter.task with
    | none =>
      -- the end of the scan
      rw [iterPos, htask] at hp
      rw [scanLoop, htask] at h
      cases h
      exact ⟨ns, L.value, rfl, hp.later le_rfl rfl⟩
    | some task =>
      have hsome : iter.task.isSome := by rw [htask]; rfl
      rw [iterPos, if_pos hsome] at hp
      obtain ⟨t, ht, hleader⟩ := hl hsome
      have hclock := asked_clock env iter task st
      have hacc := accepted_asked env iter task st
      rw [scanLoop_succ htask] at h
      split at h
      · split at h
        · next hrefused =>
          -- the entry is refused, and `f_pos` already points to it
          rw [if_pos hrefused, List.append_nil] at hacc
          cases h
          refine ⟨ns, iter.tgid, ?_, hp.later hclock ?_⟩
          · rw [log_fPos, (asked_hands env iter task st).fPos]
            simp [hooked, u32_offset hp.le]
          · simpa using hacc
        · next haccepted =>
          -- the entry is listed, and the loop goes on with the next leader
          rw [if_neg haccepted] at hacc
          obtain ⟨⟨iter', st₁⟩, hnext, hrest⟩ := Option.bind_eq_some_iff.mp h
          rw [u32_succ hleader.lt] at hnext
          have hf := nextTgid_found hnext
          have hemit : Progress env (asked env iter task st).2 (ns ++ [iter.tgid])
              (iter.tgid + 1) := hp.emit hclock hacc ⟨t, ht, hleader⟩
          refine ih iter' st₁ st' _ (hemit.found hf) ?_ hrest
          intro hsome'
          obtain ⟨-, t', -, ht', hleader'⟩ := hf.found hsome'
          exact ⟨t', ht', hleader'⟩
      · cases h

/-- **The loop ends**, since the process numbers go up and stay below the limit. -/
theorem exists_scanLoop (hhook : ∀ frame, (hook.body frame).isSome) (hinner : L.value < inner) :
    ∀ (fuel : ℕ) (iter : TgidIter) (st : St), 0 < fuel →
      (iter.task.isSome → iter.tgid < L.value ∧ L.value < fuel + iter.tgid) →
      ∃ st', scanLoop env hook inner fuel iter st = some (.returned st') := by
  intro fuel
  induction fuel with
  | zero => intro iter st h0; omega
  | succ fuel ih =>
    intro iter st _ hlt
    cases htask : iter.task with
    | none =>
      rw [scanLoop, htask]
      exact ⟨_, rfl⟩
    | some task =>
      obtain ⟨hlt, hfuel⟩ := hlt (by rw [htask]; rfl)
      rw [scanLoop_succ htask, if_pos (hhook _)]
      split
      · exact ⟨_, rfl⟩
      · obtain ⟨iter', st₁, hnext⟩ :=
          exists_nextTgid env ⟨u32 (iter.tgid + 1), iter.task⟩ (asked env iter task st).2 hinner
        rw [hnext, Option.bind_some]
        refine ih iter' st₁ (by omega) fun hsome => ?_
        obtain ⟨hle, t, -, -, hleader⟩ := (nextTgid_found hnext).found hsome
        rw [u32_succ hlt] at hle
        dsimp only at hle
        exact ⟨hleader.lt, by omega⟩

/-! ### One call -/

variable {fuel : ℕ} {reaper : TaskPtr}

/-- The invariant between two calls: nothing has been listed yet, or `f_pos` says
how far the scan has come. -/
def Resumable (env : Env L) (st : St) : Prop :=
  (st.fPos = firstProcessEntry ∧ accepted st.trace = []) ∨
    ∃ (ns : List ℕ) (pos : ℕ), st.fPos = pos + tgidOffset ∧ Progress env st ns pos

theorem resumable_start : Resumable env start := Or.inl ⟨rfl, rfl⟩

theorem Resumable.later (h : Resumable env st) (hclock : st.clock ≤ st'.clock)
    (hpos : st'.fPos = st.fPos) (hacc : accepted st'.trace = accepted st.trace) :
    Resumable env st' := by
  rcases h with ⟨h₁, h₂⟩ | ⟨ns, pos, hfpos, hp⟩
  · exact Or.inl ⟨hpos.trans h₁, hacc.trans h₂⟩
  · exact Or.inr ⟨ns, pos, hpos.trans hfpos, hp.later hclock hacc⟩

theorem baseLeft_of_fPos (hfpos : st.fPos = pos + tgidOffset) (hle : pos ≤ L.value) :
    baseLeft st = [] := by
  have := L.le
  have hnr : u32 (st.fPos - firstProcessEntry) = pos + 1 := by
    rw [hfpos]
    simp only [u32, tgidOffset, firstProcessEntry, procBaseStuff, List.length_singleton]
    omega
  rw [baseLeft, hnr]
  exact List.drop_eq_nil_of_le (Nat.le_add_left _ pos)

/-- The fixed entries are listed once, before the processes. -/
theorem baseLoop_progress {ok : Bool} {st₁ : St} (h : Resumable env st)
    (hbase : baseLoop env reaper (baseLeft st) (st.tick.log (.get reaper)) = (ok, st₁)) :
    Resumable env st₁ ∧ (ok = true → ∃ (ns : List ℕ) (pos : ℕ),
      st₁.fPos = pos + tgidOffset ∧ Progress env st₁ ns pos) := by
  rcases h with ⟨hfpos, hacc⟩ | ⟨ns, pos, hfpos, hp⟩
  · have hleft : baseLeft st = ["self"] := by
      rw [baseLeft, hfpos]
      rfl
    rw [hleft, baseLoop] at hbase
    dsimp only at hbase
    have hr := procBaseFillCache_hands env reaper "self" (st.tick.log (.get reaper))
    have hacc₁ := hr.accepted_eq
    rw [log_trace, tick_trace, accepted_append, hacc, accepted_get, accepted_nil,
      List.append_nil, List.nil_append] at hacc₁
    split at hbase
    · next hrefused =>
      rw [if_pos hrefused] at hacc₁
      cases hbase
      exact ⟨Or.inl ⟨hr.fPos.trans hfpos, hacc₁⟩, fun hok => by cases hok⟩
    · next haccepted =>
      rw [if_neg haccepted] at hacc₁
      rw [baseLoop] at hbase
      cases hbase
      have hstarted : 0 < (procBaseFillCache env reaper "self" (st.tick.log (.get reaper))).2.clock :=
        Nat.zero_lt_of_lt hr.clock
      have hfpos₁ : (procBaseFillCache env reaper "self" (st.tick.log (.get reaper))).2.fPos + 1 =
          ((0 : ℕ) : ℤ) + tgidOffset := by
        rw [hr.fPos, log_fPos, tick_fPos, hfpos]
        rfl
      generalize procBaseFillCache env reaper "self" (st.tick.log (.get reaper)) = r
        at hacc₁ hstarted hfpos₁ ⊢
      have hp : Progress env { r.2 with fPos := r.2.fPos + 1 } [] 0 :=
        ⟨hstarted, hacc₁, swept_nil fun nr _ => Nat.zero_le nr,
          fun nr hnr => absurd hnr List.not_mem_nil, Nat.zero_le _⟩
      exact ⟨Or.inr ⟨[], 0, hfpos₁, hp⟩, fun _ => ⟨[], 0, hfpos₁, hp⟩⟩
  · rw [baseLeft_of_fPos hfpos hp.le, baseLoop] at hbase
    cases hbase
    have hp' : Progress env (st.tick.log (.get reaper)) ns pos :=
      hp.later (Nat.le_succ _) (by simp)
    exact ⟨Or.inr ⟨ns, pos, hfpos, hp'⟩, fun _ => ⟨ns, pos, hfpos, hp'⟩⟩

theorem u32_sub_offset (hfpos : st.fPos = pos + tgidOffset) (hle : pos ≤ L.value) :
    u32 (st.fPos - tgidOffset) = pos := by
  have := L.le
  rw [hfpos, add_sub_cancel_right]
  exact u32_of_lt (by omega)

/-- **A call keeps the invariant.** -/
theorem resumable_call (st : St) (hook : NormalHook) (st' : St) (hI : Resumable env st)
    (h : call env fuel st hook = some st') : Resumable env st' := by
  cases call_eq_some_iff.mp h with
  | noTask hreaper => exact hI.later (Nat.le_succ _) rfl rfl
  | refused reaper st₁ hreaper hbase =>
    exact (baseLoop_progress hI hbase).1.later le_rfl rfl (by simp)
  | scanned reaper iter st₁ st₂ st₃ hreaper hbase hnext hscan =>
    obtain ⟨ns, pos, hfpos, hp⟩ := (baseLoop_progress hI hbase).2 rfl
    rw [u32_sub_offset hfpos hp.le] at hnext
    have hf := nextTgid_found hnext
    obtain ⟨ns', pos', hfpos', hp'⟩ := scanLoop_progress fuel iter st₂ st₃ ns (hp.found hf)
      (fun hsome => by
        obtain ⟨-, t, -, ht, hleader⟩ := hf.found hsome
        exact ⟨t, ht, hleader⟩) hscan
    exact Or.inr ⟨ns', pos', hfpos', hp'.later le_rfl (by simp)⟩

/-- **A call ends**, if the hook does. -/
theorem exists_call (env : Env L) (st : St) (hhook : ∀ frame, (hook.body frame).isSome)
    (hfuel : L.value < fuel) : ∃ st', call env fuel st hook = some st' := by
  cases hreaper : env.reaper st.clock with
  | none => exact ⟨_, call_eq_some_iff.mpr (.noTask hreaper)⟩
  | some reaper =>
    rcases hbase : baseLoop env reaper (baseLeft st) (st.tick.log (.get reaper)) with ⟨_ | _, st₁⟩
    · exact ⟨_, call_eq_some_iff.mpr (.refused reaper st₁ hreaper hbase)⟩
    · obtain ⟨iter, st₂, hnext⟩ :=
        exists_nextTgid env ⟨u32 (st₁.fPos - tgidOffset), none⟩ st₁ hfuel
      obtain ⟨st₃, hscan⟩ := exists_scanLoop hhook hfuel fuel iter st₂ (by omega) fun hsome => by
        obtain ⟨-, t, -, -, hleader⟩ := (nextTgid_found hnext).found hsome
        exact ⟨hleader.lt, by omega⟩
      exact ⟨_, call_eq_some_iff.mpr (.scanned reaper iter st₁ st₂ st₃ hreaper hbase hnext hscan)⟩

/-- At the end position a call lists nothing and stays there. -/
theorem call_at_end (hend : st.fPos = L.value + tgidOffset)
    (h : call env fuel st hook = some st') :
    st'.fPos = L.value + tgidOffset ∧ accepted st'.trace = accepted st.trace := by
  have hleft : baseLeft st = [] := baseLeft_of_fPos hend le_rfl
  cases call_eq_some_iff.mp h with
  | noTask hreaper => exact ⟨hend, rfl⟩
  | refused reaper st₁ hreaper hbase =>
    rw [hleft, baseLoop] at hbase
    cases hbase
  | scanned reaper iter st₁ st₂ st₃ hreaper hbase hnext hscan =>
    rw [hleft, baseLoop] at hbase
    obtain ⟨-, rfl⟩ := Prod.mk.inj hbase
    have hfpos : (st.tick.log (.get reaper)).fPos = L.value + tgidOffset := hend
    rw [u32_sub_offset hfpos le_rfl] at hnext
    have hf := nextTgid_found hnext
    -- no pid reaches the limit, so `next_tgid` finds nothing
    have hnone : iter.task = none := by
      by_contra hne
      obtain ⟨hle, t, -, -, hleader⟩ := hf.found (Option.isSome_iff_ne_none.mpr hne)
      exact absurd hleader.lt (not_lt.mpr hle)
    cases fuel with
    | zero => cases hscan
    | succ fuel =>
      rw [scanLoop, hnone] at hscan
      cases hscan
      refine ⟨rfl, ?_⟩
      rw [log_trace, accepted_append]
      simp [hf.accepted_eq]

/-! ### A whole scan -/

/-- The hook returns, whatever it finds. -/
def Returns (hook : NormalHook) : Prop := ∀ frame, (hook.body frame).isSome

variable {hooks : List NormalHook}

/-- The calls of a scan end, and keep the invariant. -/
theorem exists_run (env : Env L) (hfuel : L.value < fuel) (hhooks : ∀ hook ∈ hooks, Returns hook) :
    ∃ st, run (call env fuel) start hooks = some st ∧ Resumable env st := by
  refine run_total (P := Returns) ?_ hooks start resumable_start hhooks
  intro st hook hI hhook
  obtain ⟨st', h⟩ := exists_call env st hhook hfuel
  exact ⟨st', h, resumable_call st hook st' hI h⟩

/-- The calls after the end list nothing. -/
theorem exists_run_at_end (env : Env L) (hfuel : L.value < fuel)
    (hend : st.fPos = L.value + tgidOffset) (hhooks : ∀ hook ∈ hooks, Returns hook) :
    ∃ st', run (call env fuel) st hooks = some st' ∧
      (st'.fPos = L.value + tgidOffset ∧ accepted st'.trace = accepted st.trace) := by
  refine run_total (P := Returns) ?_ hooks st ⟨hend, rfl⟩ hhooks
  intro st₁ hook hI hhook
  obtain ⟨st₂, h⟩ := exists_call env st₁ hhook hfuel
  obtain ⟨hfpos, hacc⟩ := call_at_end hI.1 h
  exact ⟨st₂, h, hfpos, hacc.trans hI.2⟩

/-- At the end position a scan has passed all processes. -/
theorem Resumable.progress_of_end (hI : Resumable env st) (hend : st.fPos = L.value + tgidOffset) :
    ∃ ns, Progress env st ns L.value := by
  rcases hI with ⟨hfpos, -⟩ | ⟨ns, pos, hfpos, hp⟩
  · have hoff : tgidOffset = firstProcessEntry + 1 := rfl
    omega
  · obtain rfl : pos = L.value := by omega
    exact ⟨ns, hp⟩

/-- **A scan neither loses nor repeats a process.**  Whatever the processes, the
refusals and the hooks are: the calls of a scan end; they list the fixed entry
and then increasing process numbers; at the end position every process that was
there all the time has been listed once, and no further call lists anything. -/
theorem readdir_scan (env : Env L) (hfuel : L.value < fuel)
    (hhooks : ∀ hook ∈ hooks, Returns hook) :
    ∃ st, run (call env fuel) start hooks = some st ∧
      (accepted st.trace = [] ∨ ∃ ns : List ℕ,
        accepted st.trace = .base "self" :: ns.map .process ∧ ns.Pairwise (· < ·)) ∧
      (st.fPos = L.value + tgidOffset →
        (∀ nr, Steady env st.clock nr → (accepted st.trace).count (.process nr) = 1) ∧
        ∀ hooks' : List NormalHook, (∀ hook ∈ hooks', Returns hook) →
          ∃ st', run (call env fuel) st hooks' = some st' ∧
            accepted st'.trace = accepted st.trace) := by
  obtain ⟨st, hr, hI⟩ := exists_run env hfuel hhooks
  refine ⟨st, hr, ?_, fun hend => ⟨?_, ?_⟩⟩
  · rcases hI with ⟨-, hacc⟩ | ⟨ns, pos, -, hp⟩
    · exact Or.inl hacc
    · exact Or.inr ⟨ns, hp.accepted_eq, hp.swept.sorted⟩
  · intro nr hsteady
    obtain ⟨ns, hp⟩ := hI.progress_of_end hend
    exact hp.count_process hsteady
  · intro hooks' hhooks'
    obtain ⟨st', hr', -, hacc⟩ := exists_run_at_end env hfuel hend hhooks'
    exact ⟨st', hr', hacc⟩

theorem le_pidMaxLimit : 0x8000 ≤ 4 * 1024 * 1024 := by decide

/-- Pids at the addresses of their tasks, some of whose entries are cached. -/
def sameNumbers : Dir.CacheEnv where
  pidTask := fun _ pid => some pid
  taskPid := fun _ task => some task
  dumpable := fun _ _ => some 1
  euid := fun _ _ => 0
  egid := fun _ _ => 0
  newInode := fun _ => some ⟨0, 1, 0, 0, 0, 0⟩
  dLookup := fun t => t % 3 = 0
  dAlloc := fun _ => true

/-- The processes 1 and 5, a thread 3 of the first, and a process 4 that comes
and goes, with two refusals. -/
def churn : Env ⟨0x8000, le_pidMaxLimit⟩ where
  toCacheEnv := sameNumbers
  config := Dir.allOptions
  ns := fun t =>
    { pids := if t % 2 = 0 then {1, 3, 4, 5} else {1, 3, 5}
      pidTask := some
      lt_limit := by split <;> decide }
  tasks := fun _ task =>
    { pid := task
      tgid := if task = 3 then 1 else task
      hpNode := -1
      hpBuf := fun _ => 0
      next := 0 }
  reaper := fun _ => some 1
  filldir := fun t => if t = 1 ∨ t = 13 then -22 else 0
  current := fun _ => 5
  arg := fun _ => none

/-- Three calls list the processes that stay. -/
theorem churn_scan_complete : ∃ st,
    run (call churn 0x8001) start (List.replicate 3 dummyInProcPidReaddir) = some st ∧
      st.fPos = 0x8000 + tgidOffset ∧ (accepted st.trace).count (.process 5) = 1 := by
  have hreturns : ∀ hook ∈ List.replicate 3 dummyInProcPidReaddir, Returns hook := by
    intro hook hmem frame
    rw [List.eq_of_mem_replicate hmem]
    rfl
  obtain ⟨st, hr, -, hend⟩ := readdir_scan churn (show 0x8000 < 0x8001 by decide) hreturns
  have hrun : (run (call churn 0x8001) start (List.replicate 3 dummyInProcPidReaddir)).map
      (fun st => st.fPos) = some ((0x8000 : ℤ) + tgidOffset) := by decide +kernel
  rw [hr, Option.map_some, Option.some.injEq] at hrun
  refine ⟨st, hr, hrun, (hend hrun).1 5 fun t _ => ⟨?_, rfl⟩⟩
  simp only [churn]
  split <;> decide

end Proc
end KernelStudy
