import KernelStudy.Lib.Numeral
import KernelStudy.Proc.Dir
import Mathlib.Data.BitVec

/-!
# Settings of a process

Some files below `/proc/<pid>` hold one number that can be written, too.
`oom_adj` says how readily the process is killed when memory is short, and only a
privileged writer may lower it.  `make-it-fail` makes the calls of the process fail, for
a test; only a privileged writer may write it at all.  `coredump_filter` says which
parts of its memory a core dump contains; its bits share a word with others, and it is
printed in base 16.

## Main definitions

* `oomAdjustRead`, `oomAdjustWrite` — the code for `oom_adj`.
* `procFaultInjectRead`, `procFaultInjectWrite` — the code for `make-it-fail`.
* `coredumpFilterRead`, `coredumpFilterWrite` — the code for `coredump_filter`.

## Main results

* `simpleStrtol_line` — the line of an `int` is read back.
* `oom_adj_writes` — **what any writes leave in `oom_adj`.**
* `fault_inject_writes` — **what any writes leave in `make-it-fail`.**
* `filterLoop_getLsbD` — the bits that a write changes.
* `coredump_filter_writes` — **what any writes leave in `coredump_filter`.**
* `coredump_filter_round_trip` — **what was read cannot be written back.**
-/

namespace KernelStudy
namespace Proc

open Dir (s32 esrch eio eacces efault)

/-- `-EINVAL`. -/
def einval : ℤ := -22

/-- `-EPERM`. -/
def eperm : ℤ := -1

/-- A call that writes a file. -/
structure WriteCall where
  /-- What the writer hands over. -/
  text : List UInt8
  /-- `copy_from_user` fails. -/
  copyFails : Bool
  /-- `get_proc_task` finds a task. -/
  task : Bool
  /-- `get_task_mm` finds an `mm`. -/
  hasMm : Bool
  /-- `capable(CAP_SYS_RESOURCE)`. -/
  capable : Bool

/-- The buffer on the stack: cleared, with the first bytes of the text. -/
def numBuffer (text : List UInt8) : List UInt8 :=
  text.take (procNumbuf - 1) ++
    List.replicate (procNumbuf - (text.take (procNumbuf - 1)).length) 0

/-- `if (*end == '\n') end++`. -/
def pastNewline (buffer : List UInt8) (n : ℕ) : ℕ := if buffer[n]? = some 10 then n + 1 else n

/-! ### A number and the end of its line -/

/-- What follows a number that was printed. -/
def lineEnd (n : ℕ) : List UInt8 := 10 :: List.replicate n 0

theorem readDigits_lineEnd (m base n result : ℕ) :
    readDigits m base (lineEnd n) result = (result, 0) := rfl

section

variable {v : ℤ} (hlo : -2 ^ 31 ≤ v) (hhi : v < 2 ^ 31)
include hlo hhi

theorem s32_of_int : s32 v = v := by
  unfold s32
  omega

/-- The line of an `int` fits into the buffer. -/
theorem numBuffer_line :
    numBuffer (intText v ++ [10]) = intText v ++ lineEnd (12 - (intText v).length) := by
  have hlen : (intText v ++ [10]).length = (intText v).length + 1 := by simp
  have hmax := length_intText_le hlo hhi
  have htake : (intText v ++ [10]).take (procNumbuf - 1) = intText v ++ [10] := by
    apply List.take_of_length_le
    unfold procNumbuf
    omega
  have hzeros : procNumbuf - ((intText v).length + 1) = 12 - (intText v).length := by
    unfold procNumbuf
    omega
  rw [numBuffer, htake, hlen, hzeros, List.append_assoc]
  rfl

/-- **The line of an `int` is read back**, and all of it is taken. -/
theorem simpleStrtol_line :
    simpleStrtol (2 ^ 32) (numBuffer (intText v ++ [10])) 0 = (v, (intText v).length) := by
  rw [numBuffer_line hlo hhi]
  exact simpleStrtol_intText (fun base result => readDigits_lineEnd _ base _ result) rfl (by omega)

theorem pastNewline_line :
    pastNewline (numBuffer (intText v ++ [10])) (intText v).length =
      (intText v ++ [10]).length := by
  have hend : (numBuffer (intText v ++ [10]))[(intText v).length]? = some 10 := by
    rw [numBuffer_line hlo hhi, List.getElem?_append_right le_rfl, Nat.sub_self]
    rfl
  rw [pastNewline, if_pos hend, List.length_append, List.length_singleton]

end

/-! ### `oom_adj` -/

/-- `OOM_DISABLE`. -/
def oomDisable : ℤ := -17

/-- `OOM_ADJUST_MIN`. -/
def oomAdjustMin : ℤ := -16

/-- `OOM_ADJUST_MAX`. -/
def oomAdjustMax : ℤ := 15

/-- The text that `oom_adjust_read` hands out. -/
def oomAdjustRead (oomkilladj : ℤ) : List UInt8 := intText oomkilladj ++ [10]

/-- `oom_adjust_write`: its result, and `oomkilladj`. -/
def oomAdjustWrite (call : WriteCall) (oomkilladj : ℤ) : ℤ × ℤ :=
  if call.copyFails then (efault, oomkilladj)
  else
    let buffer := numBuffer call.text
    let r := simpleStrtol (2 ^ 32) buffer 0
    let oomAdjust := s32 r.1
    if (oomAdjust < oomAdjustMin ∨ oomAdjustMax < oomAdjust) ∧ oomAdjust ≠ oomDisable then
      (einval, oomkilladj)
    else
      let n := pastNewline buffer r.2
      if !call.task then (esrch, oomkilladj)
      else if oomAdjust < oomkilladj ∧ !call.capable then (eacces, oomkilladj)
      -- if nothing was read, 0 has been stored by the time of the error
      else (if n = 0 then eio else n, oomAdjust)

/-- The numbers that `oom_adj` may have. -/
def OomValid (adj : ℤ) : Prop := (oomAdjustMin ≤ adj ∧ adj ≤ oomAdjustMax) ∨ adj = oomDisable

/-- A call, as a step. -/
def oomStep (adj : ℤ) (call : WriteCall) : Option ℤ := some (oomAdjustWrite call adj).2

/-- The ways a call can end. -/
theorem oomAdjustWrite_cases (call : WriteCall) (adj : ℤ) :
    (∃ ret, oomAdjustWrite call adj = (ret, adj) ∧ ret < 0 ∧ ret ≠ eio) ∨
    ∃ adj', OomValid adj' ∧ (call.capable = false → adj ≤ adj') ∧
      (oomAdjustWrite call adj = (eio, adj') ∧ adj' = 0 ∨
        ∃ n : ℕ, 0 < n ∧ oomAdjustWrite call adj = ((n : ℤ), adj')) := by
  unfold oomAdjustWrite
  dsimp only
  split
  · exact Or.inl ⟨_, rfl, by decide, by decide⟩
  · have hzero : (simpleStrtol (2 ^ 32) (numBuffer call.text) 0).2 = 0 →
        (simpleStrtol (2 ^ 32) (numBuffer call.text) 0).1 = 0 := simpleStrtol_fst_of_snd
    generalize simpleStrtol (2 ^ 32) (numBuffer call.text) 0 = r at *
    split
    · exact Or.inl ⟨_, rfl, by decide, by decide⟩
    · next hrange =>
      have hvalid : OomValid (s32 r.1) := by
        unfold OomValid
        omega
      split
      · exact Or.inl ⟨_, rfl, by decide, by decide⟩
      · split
        · exact Or.inl ⟨_, rfl, by decide, by decide⟩
        · next hright =>
          refine Or.inr ⟨s32 r.1, hvalid, ?_, ?_⟩
          · intro hcap
            rw [hcap] at hright
            simpa using hright
          · split
            · next hn =>
              left
              have hnone : r.2 = 0 := by
                unfold pastNewline at hn
                split at hn <;> omega
              refine ⟨rfl, ?_⟩
              rw [hzero hnone]
              rfl
            · next hn => exact Or.inr ⟨_, Nat.pos_of_ne_zero hn, rfl⟩

/-- What is read can be written back. -/
theorem oomAdjustWrite_read {adj : ℤ} (h : OomValid adj) (hasMm capable : Bool) :
    oomAdjustWrite ⟨oomAdjustRead adj, false, true, hasMm, capable⟩ adj =
      (((oomAdjustRead adj).length : ℤ), adj) := by
  have hvalid := h
  unfold OomValid oomAdjustMin oomAdjustMax oomDisable at h
  have hlo : -2 ^ 31 ≤ adj := by omega
  have hhi : adj < 2 ^ 31 := by omega
  have hrange : ¬ ((adj < oomAdjustMin ∨ oomAdjustMax < adj) ∧ adj ≠ oomDisable) := by
    unfold OomValid at hvalid
    omega
  have hsome : (intText adj ++ [10]).length ≠ 0 := by simp
  unfold oomAdjustWrite oomAdjustRead
  dsimp only
  rw [simpleStrtol_line hlo hhi, if_neg Bool.false_ne_true]
  dsimp only
  rw [s32_of_int hlo hhi, pastNewline_line hlo hhi, if_neg hrange, if_neg (by decide),
    if_neg fun hless => lt_irrefl _ hless.1, if_neg hsome]

/-- **What any writes leave in `oom_adj`**: a number that is allowed, and while nobody
is privileged, none that is lower.  A call that fails has changed nothing, but for one
that reports `-EIO`: it has stored 0.  And what is read at any moment can be written
back, by anybody, and changes nothing. -/
theorem oom_adj_writes (calls : List WriteCall) {adj : ℤ} (h : OomValid adj) :
    ∃ adj', run oomStep adj calls = some adj' ∧ OomValid adj' ∧
      ((∀ call ∈ calls, call.capable = false) → adj ≤ adj') ∧
      (∀ call, ((oomAdjustWrite call adj').1 < 0 → (oomAdjustWrite call adj').1 ≠ eio →
          (oomAdjustWrite call adj').2 = adj') ∧
        ((oomAdjustWrite call adj').1 = eio → (oomAdjustWrite call adj').2 = 0)) ∧
      ∀ hasMm capable, oomAdjustWrite ⟨oomAdjustRead adj', false, true, hasMm, capable⟩ adj' =
        (((oomAdjustRead adj').length : ℤ), adj') := by
  induction calls generalizing adj with
  | nil =>
    refine ⟨adj, rfl, h, fun _ => le_rfl, fun call => ?_, oomAdjustWrite_read h⟩
    rcases oomAdjustWrite_cases call adj with ⟨ret, heq, -, hne⟩ |
      ⟨adj', -, -, ⟨heq, hzero⟩ | ⟨n, hn, heq⟩⟩
    · rw [heq]
      exact ⟨fun _ _ => rfl, fun hret => absurd hret hne⟩
    · rw [heq]
      exact ⟨fun _ hret => absurd rfl hret, fun _ => hzero⟩
    · rw [heq]
      refine ⟨fun hret => ?_, fun hret => ?_⟩ <;> dsimp only at hret
      · omega
      · unfold eio at hret
        omega
  | cons call calls ih =>
    have hstep : OomValid (oomAdjustWrite call adj).2 ∧
        (call.capable = false → adj ≤ (oomAdjustWrite call adj).2) := by
      rcases oomAdjustWrite_cases call adj with ⟨ret, heq, -, -⟩ |
        ⟨adj', hvalid, hle, ⟨heq, -⟩ | ⟨n, -, heq⟩⟩
      · rw [heq]
        exact ⟨h, fun _ => le_rfl⟩
      · rw [heq]
        exact ⟨hvalid, hle⟩
      · rw [heq]
        exact ⟨hvalid, hle⟩
    obtain ⟨adj', hrun, hvalid, hle, hrest⟩ := ih hstep.1
    refine ⟨adj', hrun, hvalid, ?_, hrest⟩
    intro hcap
    obtain ⟨hcall, hcalls⟩ := List.forall_mem_cons.mp hcap
    exact (hstep.2 hcall).trans (hle hcalls)

/-- A text without a number fails, and sets the value of -5 back to 0. -/
theorem oom_adj_cleared_by_garbage :
    oomAdjustWrite ⟨bytes "off", false, true, true, false⟩ (-5) = (eio, 0) ∧
      ∃ adj', run oomStep (-5) [⟨bytes "3", false, true, true, false⟩] = some adj' ∧
        OomValid adj' ∧ -5 ≤ adj' := by
  obtain ⟨adj', hrun, hvalid, hle, -, -⟩ := oom_adj_writes
    [⟨bytes "3", false, true, true, false⟩] (show OomValid (-5) from Or.inl (by decide))
  exact ⟨by decide, adj', hrun, hvalid, hle (by simp)⟩

/-! ### `make-it-fail` -/

/-- The text that `proc_fault_inject_read` hands out. -/
def procFaultInjectRead (makeItFail : ℤ) : List UInt8 := intText makeItFail ++ [10]

/-- `proc_fault_inject_write`: its result, and `make_it_fail`. -/
def procFaultInjectWrite (call : WriteCall) (makeItFail : ℤ) : ℤ × ℤ :=
  if !call.capable then (eperm, makeItFail)
  else if call.copyFails then (efault, makeItFail)
  else
    let buffer := numBuffer call.text
    let r := simpleStrtol (2 ^ 32) buffer 0
    let n := pastNewline buffer r.2
    if !call.task then (esrch, makeItFail)
    -- as for `oom_adj`, but any number will do
    else (if n = 0 then eio else n, s32 r.1)

/-- The call gets as far as the task. -/
def WriteCall.reaches (call : WriteCall) : Bool := call.capable && !call.copyFails && call.task

/-- The number that a text sets. -/
def faultText (text : List UInt8) : ℤ := s32 (simpleStrtol (2 ^ 32) (numBuffer text) 0).1

/-- What a call writes, if it writes. -/
def faultWritten (call : WriteCall) : Option ℤ :=
  if call.reaches then some (faultText call.text) else none

/-- A call, as a step. -/
def faultStep (makeItFail : ℤ) (call : WriteCall) : Option ℤ :=
  some (procFaultInjectWrite call makeItFail).2

/-- A call that does not get to the task fails, and changes nothing. -/
theorem procFaultInjectWrite_of_not_reaches {call : WriteCall} (h : call.reaches = false) (v : ℤ) :
    (procFaultInjectWrite call v).1 < 0 ∧ (procFaultInjectWrite call v).2 = v := by
  unfold procFaultInjectWrite
  dsimp only
  split
  · exact ⟨show eperm < 0 by decide, rfl⟩
  · next hcap =>
    split
    · exact ⟨show efault < 0 by decide, rfl⟩
    · next hcopy =>
      split
      · exact ⟨show esrch < 0 by decide, rfl⟩
      · next htask =>
        simp only [Bool.not_eq_true, Bool.not_eq_false'] at hcap hcopy htask
        rw [WriteCall.reaches, hcap, hcopy, htask] at h
        cases h

/-- A call that gets to the task writes, whether it then fails or not. -/
theorem procFaultInjectWrite_of_reaches {call : WriteCall} (h : call.reaches = true) (v : ℤ) :
    (procFaultInjectWrite call v).2 = faultText call.text ∧
      ((procFaultInjectWrite call v).1 = eio ∧ faultText call.text = 0 ∨
        0 < (procFaultInjectWrite call v).1) := by
  simp only [WriteCall.reaches, Bool.and_eq_true, Bool.not_eq_true'] at h
  obtain ⟨⟨hcap, hcopy⟩, htask⟩ := h
  unfold procFaultInjectWrite faultText
  dsimp only
  rw [hcap, hcopy, htask, if_neg (by decide), if_neg Bool.false_ne_true, if_neg (by decide)]
  refine ⟨rfl, ?_⟩
  dsimp only
  split
  · next hn =>
    left
    have hnone : (simpleStrtol (2 ^ 32) (numBuffer call.text) 0).2 = 0 := by
      unfold pastNewline at hn
      split at hn <;> omega
    rw [simpleStrtol_fst_of_snd hnone]
    exact ⟨rfl, rfl⟩
  · next hn =>
    right
    omega

/-- What is read can be written back by whoever may write. -/
theorem procFaultInjectWrite_read {v : ℤ} (hlo : -2 ^ 31 ≤ v) (hhi : v < 2 ^ 31) (hasMm : Bool)
    (u : ℤ) : procFaultInjectWrite ⟨procFaultInjectRead v, false, true, hasMm, true⟩ u =
      (((procFaultInjectRead v).length : ℤ), v) := by
  have hsome : (intText v ++ [10]).length ≠ 0 := by simp
  unfold procFaultInjectWrite procFaultInjectRead
  dsimp only
  rw [simpleStrtol_line hlo hhi, if_neg (by decide), if_neg Bool.false_ne_true]
  dsimp only
  rw [s32_of_int hlo hhi, pastNewline_line hlo hhi, if_neg (by decide), if_neg hsome]

/-- An `int`. -/
def IsInt (v : ℤ) : Prop := -2 ^ 31 ≤ v ∧ v < 2 ^ 31

theorem faultText_isInt (text : List UInt8) : IsInt (faultText text) := by
  unfold IsInt faultText s32
  omega

theorem faultStep_written (v : ℤ) (call : WriteCall) :
    (procFaultInjectWrite call v).2 = (faultWritten call).getD v := by
  unfold faultWritten
  split
  · next h => exact (procFaultInjectWrite_of_reaches h v).1
  · next h => exact (procFaultInjectWrite_of_not_reaches (by simpa using h) v).2

/-- **What any writes leave in `make-it-fail`**: the number of the last call that got as
far as the task, and not of the last that succeeded.  A call that reports `-EIO` has
written 0, and one that fails otherwise nothing.  And what is read at any moment sets the
same number again, whatever has been written since. -/
theorem fault_inject_writes (calls : List WriteCall) {v : ℤ} (h : IsInt v) :
    ∃ v', run faultStep v calls = some v' ∧ IsInt v' ∧ v' = (lastOf faultWritten calls).getD v ∧
      (∀ call, call.reaches = false →
        (procFaultInjectWrite call v').1 < 0 ∧ (procFaultInjectWrite call v').2 = v') ∧
      (∀ call, call.reaches = true → (procFaultInjectWrite call v').2 = faultText call.text ∧
        ((procFaultInjectWrite call v').1 = eio ∧ faultText call.text = 0 ∨
          0 < (procFaultInjectWrite call v').1)) ∧
      ∀ hasMm u, procFaultInjectWrite ⟨procFaultInjectRead v', false, true, hasMm, true⟩ u =
        (((procFaultInjectRead v').length : ℤ), v') := by
  have hstep : ∀ s call, IsInt s → ∃ s', faultStep s call = some s' ∧ IsInt s' := by
    intro s call hs
    refine ⟨_, rfl, ?_⟩
    rw [faultStep_written, faultWritten]
    split
    · exact faultText_isInt call.text
    · exact hs
  obtain ⟨v', hrun, hint⟩ := run_total (P := fun _ => True)
    (fun s call hs _ => hstep s call hs) calls v h fun _ _ => trivial
  have hlast : v' = (lastOf faultWritten calls).getD v := by
    refine run_lastOf id (I := fun _ => True) ?_ calls v v' trivial hrun
    rintro s call s' - hs
    cases hs
    exact ⟨trivial, faultStep_written s call⟩
  exact ⟨v', hrun, hint, hlast, fun call hcall => procFaultInjectWrite_of_not_reaches hcall v',
    fun call hcall => procFaultInjectWrite_of_reaches hcall v',
    fun hasMm u => procFaultInjectWrite_read hint.1 hint.2 hasMm u⟩

/-- The last of three calls fails, and undoes the first; the second one has no right. -/
theorem fault_inject_undone :
    run faultStep 0 [⟨bytes "5", false, true, true, true⟩, ⟨bytes "7", false, true, true, false⟩,
      ⟨bytes "on", false, true, true, true⟩] = some 0 ∧
    (procFaultInjectWrite ⟨bytes "on", false, true, true, true⟩ 5).1 = eio ∧
    ∃ v', run faultStep 0 [⟨bytes "5", false, true, true, true⟩,
      ⟨bytes "7", false, true, true, false⟩] = some v' ∧ v' = 5 := by
  obtain ⟨v', hrun, -, hlast, -⟩ := fault_inject_writes
    [⟨bytes "5", false, true, true, true⟩, ⟨bytes "7", false, true, true, false⟩]
    (show IsInt 0 from ⟨by decide, by decide⟩)
  exact ⟨by decide, by decide, v', hrun, hlast.trans (by decide)⟩

/-! ### `coredump_filter` -/

/-- Where the filter is in `mm->flags`. -/
structure FilterBits where
  /-- `MMF_DUMP_FILTER_SHIFT`. -/
  shift : ℕ
  /-- `MMF_DUMP_FILTER_BITS`. -/
  bits : ℕ
  bits_le : bits ≤ 28
  fits : shift + bits ≤ 32

section

variable (b : FilterBits)

/-- `(mm->flags & MMF_DUMP_FILTER_MASK) >> MMF_DUMP_FILTER_SHIFT`. -/
def filterOf (flags : BitVec 32) : BitVec 32 :=
  (flags &&& (((1#32 <<< b.bits) - 1#32) <<< b.shift)) >>> b.shift

/-- The text that `proc_coredump_filter_read` hands out. -/
def coredumpFilterRead (flags : BitVec 32) : List UInt8 :=
  hexText 8 (filterOf b flags).toNat ++ [10]

/-- The loop of `proc_coredump_filter_write` from bit `i` on, with `n` bits to go. -/
def filterLoop (val : BitVec 32) : ℕ → ℕ → BitVec 32 → BitVec 32
  | 0, _, flags => flags
  | n + 1, i, flags =>
      filterLoop val n (i + 1)
        (if val &&& (1#32 <<< i) ≠ 0#32 then flags ||| (1#32 <<< (i + b.shift))
        else flags &&& ~~~ (1#32 <<< (i + b.shift)))

/-- `proc_coredump_filter_write`: its result, and `mm->flags`. -/
def coredumpFilterWrite (call : WriteCall) (flags : BitVec 32) : ℤ × BitVec 32 :=
  if call.copyFails then (efault, flags)
  else
    let buffer := numBuffer call.text
    let r := simpleStrtoul (2 ^ 32) buffer 0
    let n := pastNewline buffer r.2
    if n = 0 then (einval, flags)
    else if !call.task then (esrch, flags)
    -- without an `mm` nothing is changed, and the call succeeds
    else if !call.hasMm then (n, flags)
    else (n, filterLoop b (BitVec.ofNat 32 r.1) b.bits 0 flags)

end

variable {b : FilterBits}

theorem getLsbD_one_shiftLeft (i j : ℕ) (hj : j < 32) :
    (1#32 <<< i).getLsbD j = decide (i = j) := by
  rw [BitVec.getLsbD_shiftLeft, BitVec.getLsbD_one]
  rcases Nat.lt_trichotomy i j with h | h | h
  · simp [hj, h.ne, show ¬ j < i by omega, show ¬ j - i = 0 by omega]
  · simp [hj, h]
  · simp [h, h.ne']

theorem and_one_shiftLeft_ne_zero (val : BitVec 32) {i : ℕ} (hi : i < 32) :
    val &&& (1#32 <<< i) ≠ 0#32 ↔ val.getLsbD i = true := by
  rw [Ne, ← not_iff_not, not_not, Bool.not_eq_true]
  constructor
  · intro h
    have hbit := congrArg (fun x => BitVec.getLsbD x i) h
    simpa [getLsbD_one_shiftLeft i i hi, -BitVec.getLsbD_shiftLeft] using hbit
  · intro h
    apply BitVec.eq_of_getLsbD_eq
    intro j hj
    rw [BitVec.getLsbD_and, getLsbD_one_shiftLeft i j hj, BitVec.getLsbD_zero]
    by_cases heq : i = j
    · rw [← heq, h, Bool.false_and]
    · simp [heq]

/-- One bit is written. -/
theorem writeBit_getLsbD {val flags : BitVec 32} {i k j : ℕ} (hi : i < 32) (hk : k < 32) :
    (if val &&& (1#32 <<< i) ≠ 0#32 then flags ||| (1#32 <<< k)
      else flags &&& ~~~ (1#32 <<< k)).getLsbD j =
      if j = k then val.getLsbD i else flags.getLsbD j := by
  have hbit := and_one_shiftLeft_ne_zero val hi
  by_cases hj : j < 32
  · have hone := getLsbD_one_shiftLeft k j hj
    by_cases hjk : j = k
    · subst hjk
      rw [if_pos rfl]
      split
      · next hset => rw [BitVec.getLsbD_or, hone, hbit.mp hset]; simp
      · next hclear =>
        have hoff : val.getLsbD i = false := by simpa using mt hbit.mpr hclear
        rw [BitVec.getLsbD_and, BitVec.getLsbD_not, hone, hoff]
        simp
    · rw [if_neg hjk]
      split
      · rw [BitVec.getLsbD_or, hone]
        simp [Ne.symm hjk]
      · rw [BitVec.getLsbD_and, BitVec.getLsbD_not, hone]
        simp [Ne.symm hjk, hj]
  · have hjk : ¬ j = k := by omega
    rw [if_neg hjk, BitVec.getLsbD_of_ge _ _ (not_lt.mp hj),
      BitVec.getLsbD_of_ge _ _ (not_lt.mp hj)]

/-- **The bits that a write changes.** -/
theorem filterLoop_getLsbD {val : BitVec 32} : ∀ (n i : ℕ) (flags : BitVec 32) (j : ℕ),
    i + n + b.shift ≤ 32 → (filterLoop b val n i flags).getLsbD j =
      if i + b.shift ≤ j ∧ j < i + n + b.shift then val.getLsbD (j - b.shift)
      else flags.getLsbD j := by
  intro n
  induction n with
  | zero =>
    intro i flags j _
    rw [filterLoop, if_neg (by omega)]
  | succ n ih =>
    intro i flags j hfits
    rw [filterLoop, ih _ _ _ (by omega), writeBit_getLsbD (by omega) (by omega)]
    by_cases hnow : j = i + b.shift
    · have hsub : j - b.shift = i := by omega
      rw [if_neg (by omega), if_pos hnow, if_pos (by omega), hsub]
    · by_cases hlater : i + 1 + b.shift ≤ j ∧ j < i + 1 + n + b.shift
      · rw [if_pos hlater, if_pos (by omega)]
      · rw [if_neg hlater, if_neg hnow, if_neg (by omega)]

/-- The bits of the filter. -/
theorem filterOf_testBit (flags : BitVec 32) (i : ℕ) :
    (filterOf b flags).toNat.testBit i = (decide (i < b.bits) && flags.getLsbD (b.shift + i)) := by
  have hbits := b.bits_le
  have hfits := b.fits
  have hmask : ((1#32 <<< b.bits) - 1#32).toNat = 2 ^ b.bits - 1 := by
    have hlt : 2 ^ b.bits < 2 ^ 32 := Nat.pow_lt_pow_right (by omega) (by omega)
    have hpos : 0 < 2 ^ b.bits := Nat.pow_pos (by omega)
    rw [BitVec.toNat_sub, BitVec.toNat_shiftLeft, BitVec.toNat_one (by omega), Nat.one_shiftLeft,
      Nat.mod_eq_of_lt hlt]
    omega
  have hone : ∀ j, ((1#32 <<< b.bits) - 1#32).getLsbD j = decide (j < b.bits) := by
    intro j
    rw [← BitVec.testBit_toNat, hmask, Nat.testBit_two_pow_sub_one]
  rw [BitVec.testBit_toNat, filterOf, BitVec.getLsbD_ushiftRight, BitVec.getLsbD_and,
    BitVec.getLsbD_shiftLeft, hone]
  by_cases hi : i < b.bits
  · simp [hi, show b.shift + i < 32 by omega]
  · simp [hi]

theorem filterOf_lt (flags : BitVec 32) : (filterOf b flags).toNat < 2 ^ b.bits := by
  apply Nat.lt_pow_two_of_testBit
  intro i hi
  rw [filterOf_testBit]
  simp [show ¬ i < b.bits by omega]

/-- The filter that a write leaves. -/
theorem filterOf_filterLoop (val flags : BitVec 32) :
    (filterOf b (filterLoop b val b.bits 0 flags)).toNat = val.toNat % 2 ^ b.bits := by
  have hfits := b.fits
  apply Nat.eq_of_testBit_eq
  intro i
  rw [filterOf_testBit, filterLoop_getLsbD _ _ _ _ (by omega), Nat.testBit_mod_two_pow,
    BitVec.testBit_toNat]
  by_cases hi : i < b.bits
  · rw [if_pos (by omega), show b.shift + i - b.shift = i by omega]
  · simp [hi]

/-- A write changes nothing exactly if it leaves the filter as it is. -/
theorem filterLoop_eq_self_iff (val flags : BitVec 32) : filterLoop b val b.bits 0 flags = flags ↔
    val.toNat % 2 ^ b.bits = (filterOf b flags).toNat := by
  have hfits := b.fits
  rw [← filterOf_filterLoop val flags]
  constructor
  · intro h
    rw [h]
  · intro h
    apply BitVec.eq_of_getLsbD_eq
    intro j hj
    have hbit := congrArg (fun x => Nat.testBit x (j - b.shift)) h
    simp only [filterOf_testBit] at hbit
    by_cases hwin : b.shift ≤ j ∧ j < b.bits + b.shift
    · have hsub : b.shift + (j - b.shift) = j := by omega
      rw [hsub, decide_eq_true (show j - b.shift < b.bits by omega)] at hbit
      simpa using hbit
    · rw [filterLoop_getLsbD _ _ _ _ (by omega), if_neg (by omega)]

/-- The number that a text sets. -/
def filterText (text : List UInt8) : ℕ := (simpleStrtoul (2 ^ 32) (numBuffer text) 0).1

/-- A call, as a step. -/
def filterStep (b : FilterBits) (flags : BitVec 32) (call : WriteCall) : Option (BitVec 32) :=
  some (coredumpFilterWrite b call flags).2

/-- The ways a call can end. -/
theorem coredumpFilterWrite_cases (call : WriteCall) (flags : BitVec 32) :
    (coredumpFilterWrite b call flags).2 = flags ∧
        (0 < (coredumpFilterWrite b call flags).1 → call.hasMm = false) ∨
      (coredumpFilterWrite b call flags).2 =
        filterLoop b (BitVec.ofNat 32 (filterText call.text)) b.bits 0 flags := by
  unfold coredumpFilterWrite
  dsimp only
  split
  · exact Or.inl ⟨rfl, fun h => absurd h (show ¬ 0 < efault by decide)⟩
  · split
    · exact Or.inl ⟨rfl, fun h => absurd h (show ¬ 0 < einval by decide)⟩
    · split
      · exact Or.inl ⟨rfl, fun h => absurd h (show ¬ 0 < esrch by decide)⟩
      · split
        · next hmm => exact Or.inl ⟨rfl, fun _ => by simpa using hmm⟩
        · exact Or.inr rfl

/-- **What any writes leave in `mm->flags`**: the bits beside the filter are as they
were, and the text that is read after a write has succeeded is that of the number which
was written, as far as it fits. -/
theorem coredump_filter_writes (b : FilterBits) (calls : List WriteCall) (flags : BitVec 32) :
    ∃ flags', run (filterStep b) flags calls = some flags' ∧
      (∀ j, ¬ (b.shift ≤ j ∧ j < b.shift + b.bits) → flags'.getLsbD j = flags.getLsbD j) ∧
      ∀ call, call.hasMm = true → 0 < (coredumpFilterWrite b call flags').1 →
        coredumpFilterRead b (coredumpFilterWrite b call flags').2 =
          hexText 8 (filterText call.text % 2 ^ b.bits) ++ [10] := by
  have hbits := b.bits_le
  have hfits := b.fits
  induction calls generalizing flags with
  | nil =>
    refine ⟨flags, rfl, fun _ _ => rfl, fun call hmm hret => ?_⟩
    rcases coredumpFilterWrite_cases call flags with ⟨-, hnone⟩ | heq
    · rw [hnone hret] at hmm
      cases hmm
    · have hmod : filterText call.text % 2 ^ 32 % 2 ^ b.bits = filterText call.text % 2 ^ b.bits :=
        Nat.mod_mod_of_dvd _ (Nat.pow_dvd_pow 2 (by omega))
      rw [coredumpFilterRead, heq, filterOf_filterLoop, BitVec.toNat_ofNat, hmod]
  | cons call calls ih =>
    obtain ⟨flags', hrun, hframe, hrest⟩ := ih (coredumpFilterWrite b call flags).2
    refine ⟨flags', hrun, fun j hj => ?_, hrest⟩
    rw [hframe j hj]
    rcases coredumpFilterWrite_cases (b := b) call flags with ⟨heq, -⟩ | heq
    · rw [heq]
    · rw [heq, filterLoop_getLsbD _ _ _ _ (by omega), if_neg (by omega)]

theorem numBuffer_read (flags : BitVec 32) : numBuffer (coredumpFilterRead b flags) =
    hexText 8 (filterOf b flags).toNat ++ lineEnd 4 := by
  have hlen : (coredumpFilterRead b flags).length = 9 := by simp [coredumpFilterRead]
  have htake : (coredumpFilterRead b flags).take (procNumbuf - 1) = coredumpFilterRead b flags :=
    List.take_of_length_le (by rw [hlen]; decide)
  rw [numBuffer, htake, hlen, coredumpFilterRead, List.append_assoc]
  rfl

theorem numBuffer_hex (flags : BitVec 32) :
    numBuffer (bytes "0x" ++ coredumpFilterRead b flags) =
      48 :: 120 :: (hexText 8 (filterOf b flags).toNat ++ lineEnd 2) := by
  have hlen : (bytes "0x" ++ coredumpFilterRead b flags).length = 11 := by
    simp [coredumpFilterRead, bytes]
  have htake : (bytes "0x" ++ coredumpFilterRead b flags).take (procNumbuf - 1) =
      bytes "0x" ++ coredumpFilterRead b flags :=
    List.take_of_length_le (by rw [hlen]; decide)
  rw [numBuffer, htake, hlen, coredumpFilterRead, List.append_assoc, List.append_assoc]
  rfl

theorem hexDigit_ne_x {d : ℕ} (h : d < 16) : hexDigit d ≠ 120 ∧ hexDigit d ≠ 88 := by
  interval_cases d <;> decide

/-- What was printed begins with a zero, and is taken for a number of base 8. -/
theorem simpleStrtoul_read {v : ℕ} (hv : v < 2 ^ 28) (n : ℕ) :
    simpleStrtoul (2 ^ 32) (hexText 8 v ++ lineEnd n) 0 =
      readDigits (2 ^ 32) 8 (hexText 8 v ++ lineEnd n) 0 := by
  have htop : hexDigit (v / 16 ^ 7 % 16) = 48 := by
    rw [Nat.div_eq_of_lt (by omega)]
    rfl
  have hnext := hexDigit_ne_x (Nat.mod_lt (v / 16 ^ 6) (show 0 < 16 by omega))
  have hpre : hexPrefix (hexText 8 v ++ lineEnd n) = false := by
    rw [hexText, hexText, htop, List.cons_append, List.cons_append]
    unfold hexPrefix
    split
    · next heq => exact absurd (List.cons.inj (List.cons.inj heq).2).1 hnext.1
    · next heq => exact absurd (List.cons.inj (List.cons.inj heq).2).1 hnext.2
    · rfl
  have hbase : simpleGuessBase (hexText 8 v ++ lineEnd n) = 8 := by
    have hhead : (hexText 8 v ++ lineEnd n).head? = some 48 := by
      rw [hexText, htop]
      rfl
    rw [simpleGuessBase, if_pos hhead, hpre]
    rfl
  rw [simpleStrtoul, if_pos rfl, hbase, strtoulIn, if_neg fun h => absurd h.1 (by decide)]

/-- With the prefix, it is read in base 16. -/
theorem simpleStrtoul_hex {v : ℕ} (hv : v < 2 ^ 32) (n : ℕ) :
    simpleStrtoul (2 ^ 32) (48 :: 120 :: (hexText 8 v ++ lineEnd n)) 0 = (v, 10) := by
  have hdigits : readDigits (2 ^ 32) 16 (hexText 8 v ++ lineEnd n) 0 = (v, 8) := by
    have hmod : v % 16 ^ 8 = v := Nat.mod_eq_of_lt (by omega)
    rw [readDigits_hexText (fun result => readDigits_lineEnd _ _ _ result) v 8 0 (by omega), hmod,
      Nat.zero_mul, Nat.zero_add]
  have hbase : simpleGuessBase (48 :: 120 :: (hexText 8 v ++ lineEnd n)) = 16 := by
    have hdigit := digitVal_hexDigit (Nat.mod_lt (v / 16 ^ 7) (show 0 < 16 by omega))
    have hthird : (48 :: 120 :: (hexText 8 v ++ lineEnd n))[2]? =
        some (hexDigit (v / 16 ^ 7 % 16)) := by
      rw [hexText]
      rfl
    rw [simpleGuessBase, List.head?_cons, if_pos rfl, hthird, Option.bind_some, hdigit]
    rfl
  rw [simpleStrtoul, if_pos rfl, hbase, strtoulIn, if_pos ⟨rfl, rfl⟩]
  dsimp only [List.drop]
  rw [hdigits]

section

variable (flags : BitVec 32) (capable : Bool)

/-- What was read is written back as it is. -/
theorem coredumpFilterWrite_read :
    (coredumpFilterWrite b ⟨coredumpFilterRead b flags, false, true, true, capable⟩ flags).2 =
      flags ↔ (filterOf b flags).toNat < 8 := by
  have hbits := b.bits_le
  have hlt := filterOf_lt (b := b) flags
  have hpow : 2 ^ b.bits ≤ 2 ^ 28 := Nat.pow_le_pow_right (by omega) hbits
  have hval := simpleStrtoul_read (hlt.trans_le hpow) 4
  have height := readDigits_hexText_eight (m := 2 ^ 32) (by omega)
    (fun result => readDigits_lineEnd _ _ 4 result) (filterOf b flags).toNat 8
  have hle := readDigits_hexText_le (m := 2 ^ 32) (fun result => readDigits_lineEnd _ _ 4 result)
    (filterOf b flags).toNat 0 8 0 0 le_rfl
  have hmod : (filterOf b flags).toNat % 16 ^ 8 = (filterOf b flags).toNat :=
    Nat.mod_eq_of_lt (by omega)
  rw [hmod] at height hle
  -- the zero in front is a digit of base 8, so the call does not fail
  have hsome : pastNewline (hexText 8 (filterOf b flags).toNat ++ lineEnd 4)
      (readDigits (2 ^ 32) 8 (hexText 8 (filterOf b flags).toNat ++ lineEnd 4) 0).2 ≠ 0 := by
    have htop : (filterOf b flags).toNat / 16 ^ 7 % 16 < 8 := by
      rw [Nat.div_eq_of_lt (by omega)]
      decide
    rw [readDigits_hexText_succ, if_pos htop, pastNewline]
    split <;> omega
  unfold coredumpFilterWrite
  dsimp only
  rw [numBuffer_read, hval, if_neg Bool.false_ne_true, if_neg hsome]
  rw [if_neg (by decide), if_neg (by decide)]
  dsimp only
  rw [filterLoop_eq_self_iff, BitVec.toNat_ofNat, Nat.mod_eq_of_lt (by omega),
    Nat.mod_eq_of_lt (by omega), height]

/-- What was read is written back with `0x` in front. -/
theorem coredumpFilterWrite_hex : coredumpFilterWrite b
    ⟨bytes "0x" ++ coredumpFilterRead b flags, false, true, true, capable⟩ flags = (11, flags) := by
  have hbits := b.bits_le
  have hlt := filterOf_lt (b := b) flags
  have hpow : 2 ^ b.bits ≤ 2 ^ 28 := Nat.pow_le_pow_right (by omega) hbits
  have hend : pastNewline (48 :: 120 :: (hexText 8 (filterOf b flags).toNat ++ lineEnd 2)) 10 =
      11 := by
    have hten : (48 :: 120 :: (hexText 8 (filterOf b flags).toNat ++ lineEnd 2))[10]? =
        some 10 := by
      rw [List.getElem?_cons_succ, List.getElem?_cons_succ,
        List.getElem?_append_right (by rw [length_hexText]), length_hexText]
      rfl
    rw [pastNewline, if_pos hten]
  unfold coredumpFilterWrite
  dsimp only
  rw [numBuffer_hex, simpleStrtoul_hex (by omega) 2, if_neg Bool.false_ne_true]
  dsimp only
  rw [hend, if_neg (by decide), if_neg (by decide), if_neg (by decide)]
  refine Prod.ext rfl ((filterLoop_eq_self_iff _ _).mpr ?_)
  rw [BitVec.toNat_ofNat, Nat.mod_eq_of_lt (by omega), Nat.mod_eq_of_lt (by omega)]

end

/-- **What was read cannot be written back**, except for a filter below 8: the zeros in
front make it a number of base 8.  With `0x` in front of it, it can. -/
theorem coredump_filter_round_trip (b : FilterBits) (flags : BitVec 32) (capable : Bool) :
    ((coredumpFilterWrite b ⟨coredumpFilterRead b flags, false, true, true, capable⟩ flags).2 =
        flags ↔ (filterOf b flags).toNat < 8) ∧
      coredumpFilterWrite b ⟨bytes "0x" ++ coredumpFilterRead b flags, false, true, true, capable⟩
        flags = (11, flags) :=
  ⟨coredumpFilterWrite_read flags capable, coredumpFilterWrite_hex flags capable⟩

/-- Seven bits, behind the two that say if the process is dumpable. -/
def sevenBits : FilterBits := ⟨2, 7, by omega, by omega⟩

-- 0x33 is printed, and 033 is read
example : (filterOf sevenBits (coredumpFilterWrite sevenBits
    ⟨coredumpFilterRead sevenBits (0x33#32 <<< 2), false, true, true, false⟩
    (0x33#32 <<< 2)).2).toNat = 0x1b := by
  decide

end Proc
end KernelStudy
