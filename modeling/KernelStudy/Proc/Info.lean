import KernelStudy.Lib.Ring
import KernelStudy.Proc.Memory
import KernelStudy.Proc.Settings
import Mathlib.Data.List.TakeWhile

/-!
# Texts about a process

Many files below `/proc/<pid>` are a text of at most a page that is made anew for every
call: `proc_info_read` has a function make it, and hands out the part that is asked for.
One of the texts is the command line, as it is in the memory of the process; another one
is what the process has read and written, with all of its threads.

## Main definitions

* `simpleReadFromBuffer`, `procInfoRead` — handing out a text.
* `procPidCmdline` — the command line.
* `doIoAccounting`, `ioText` — what has been read and written.

## Main results

* `info_reads` — **what a reader of a text gets, if the text changes and if it does not.**
* `cmdline_shows` — **what is shown of the memory of the process.**
* `io_totals` — **every thread is counted once, whichever of them is asked.**
-/

namespace KernelStudy
namespace Proc

open Dir (esrch enomem efault)

/-! ### Handing out a text -/

/-- What the code finds at each moment. -/
structure InfoEnv where
  /-- `get_proc_task` finds a task. -/
  task : ℕ → Bool
  /-- There is a free page. -/
  freePage : ℕ → Bool
  /-- The text that `proc_read` makes, or its error. -/
  procRead : ℕ → Except ℤ (List UInt8)
  /-- How many of so many bytes `copy_to_user` leaves, since the buffer of the reader
  cannot be written there. -/
  notCopied : ℕ → ℕ → ℕ
  /-- Whether `simple_read_from_buffer` tells how much it has copied before a fault, as it
  does in some kernels; in others it fails. -/
  tellsPart : Bool
  procRead_neg : ∀ t e, procRead t = .error e → e < 0
  notCopied_le : ∀ t n, notCopied t n ≤ n

/-- What a call does. -/
structure Handed where
  /-- Its result. -/
  ret : ℤ
  /-- `*ppos`, after it. -/
  ppos : ℕ
  /-- What it delivers, also if it fails. -/
  bytes : List UInt8

/-- A file that is read. -/
structure InfoSt where
  /-- The next moment. -/
  clock : ℕ
  /-- `*ppos`. -/
  ppos : ℕ
  /-- What the calls that succeed have delivered. -/
  out : List UInt8
  /-- What the others have delivered, with its places in the text. -/
  untold : List (UInt8 × ℕ)
  /-- The results of the calls. -/
  results : List ℤ

/-- `PROC_BLOCK_SIZE`. -/
def procBlockSize : ℕ := 3 * 1024

/-- `simple_read_from_buffer`.  If it fails for a fault, the bytes before the fault have
been delivered and the offset is where it was. -/
def simpleReadFromBuffer (tellsPart : Bool) (notCopied : ℕ → ℕ) (count ppos : ℕ)
    (text : List UInt8) : Handed :=
  if text.length ≤ ppos then ⟨0, ppos, []⟩
  else
    let bytes := (text.drop ppos).take count
    let copied := bytes.take (bytes.length - notCopied bytes.length)
    if notCopied bytes.length = 0 ∨ tellsPart = true ∧ copied ≠ [] then
      ⟨copied.length, ppos + copied.length, copied⟩
    else ⟨efault, ppos, copied⟩

/-- `proc_info_read`. -/
def procInfoRead (env : InfoEnv) (t count ppos : ℕ) : Handed :=
  if !env.task t then ⟨esrch, ppos, []⟩
  else
    let count := if procBlockSize < count then procBlockSize else count
    if !env.freePage (t + 1) then ⟨enomem, ppos, []⟩
    else
      match env.procRead (t + 2) with
      | .error e => ⟨e, ppos, []⟩
      | .ok text =>
          simpleReadFromBuffer env.tellsPart (env.notCopied (t + 3)) count ppos text

/-- A call, as a step. -/
def infoStep (env : InfoEnv) (st : InfoSt) (count : ℕ) : Option InfoSt :=
  let r := procInfoRead env st.clock count st.ppos
  some {
    clock := st.clock + 4
    ppos := r.ppos
    out := if r.ret < 0 then st.out else st.out ++ r.bytes
    untold := if r.ret < 0 then st.untold ++ r.bytes.zipIdx st.ppos else st.untold
    results := st.results ++ [r.ret] }

theorem blockCount (count : ℕ) :
    (if procBlockSize < count then procBlockSize else count) = min count procBlockSize := by
  split <;> omega

/-- What a call at `ppos` can do: it fails, and the offset stays, or it succeeds, tells
how much it has delivered and moves on by as much; what it delivers is in either case
from the text, from `ppos` on. -/
structure HandsOut (text : Option (List UInt8)) (ppos : ℕ) (r : Handed) : Prop where
  fails : r.ret < 0 → r.ppos = ppos
  succeeds : 0 ≤ r.ret → r.ret = r.bytes.length ∧ r.ppos = ppos + r.bytes.length
  bytes : r.bytes = [] ∨ ∃ bytes, text = some bytes ∧ r.bytes <+: bytes.drop ppos

/-- A call that delivers nothing, and so leaves the offset alone. -/
theorem handsOut_none (text : Option (List UInt8)) (ppos : ℕ) {ret : ℤ} (h : ret ≤ 0) :
    HandsOut text ppos ⟨ret, ppos, []⟩ where
  fails := fun _ => rfl
  succeeds := fun hret => ⟨le_antisymm h hret, rfl⟩
  bytes := Or.inl rfl

theorem simpleReadFromBuffer_handsOut (tellsPart : Bool) (notCopied : ℕ → ℕ) (count ppos : ℕ)
    (text : List UInt8) :
    HandsOut (some text) ppos (simpleReadFromBuffer tellsPart notCopied count ppos text) := by
  unfold simpleReadFromBuffer
  split
  · exact handsOut_none _ _ le_rfl
  · have hprefix := fun k => (List.take_prefix k ((text.drop ppos).take count)).trans
      (List.take_prefix count (text.drop ppos))
    dsimp only
    split
    · refine ⟨fun hret => ?_, fun _ => ⟨rfl, rfl⟩, Or.inr ⟨text, rfl, hprefix _⟩⟩
      exact absurd hret (Int.natCast_nonneg _).not_gt
    · refine ⟨fun _ => rfl, fun hret => ?_, Or.inr ⟨text, rfl, hprefix _⟩⟩
      exact absurd hret (show ¬ 0 ≤ efault by decide)

/-- **One call** delivers a part of a text of the moment. -/
theorem procInfoRead_handsOut (env : InfoEnv) (t count ppos : ℕ) :
    HandsOut (env.procRead (t + 2)).toOption ppos (procInfoRead env t count ppos) := by
  unfold procInfoRead
  split
  · exact handsOut_none _ _ (by decide)
  · dsimp only
    split
    · exact handsOut_none _ _ (by decide)
    · split
      · next e he => exact handsOut_none _ _ (env.procRead_neg _ e he).le
      · next text htext =>
        rw [htext]
        exact simpleReadFromBuffer_handsOut _ _ _ _ _

/-- What a reader has. -/
structure Informed (env : InfoEnv) (st : InfoSt) : Prop where
  ppos : st.ppos = st.out.length
  told : told st.results = st.out.length
  /-- Every byte is one of a text, at its place. -/
  byte : ∀ (i : ℕ) (c : UInt8), st.out[i]? = some c ∨ (c, i) ∈ st.untold →
    ∃ t < st.clock, ∃ text, env.procRead t = .ok text ∧ text[i]? = some c

/-- A byte that is delivered is the one of its place. -/
theorem HandsOut.byte {text : Option (List UInt8)} {ppos : ℕ} {r : Handed}
    (h : HandsOut text ppos r) {i : ℕ} {c : UInt8} (hi : ppos ≤ i)
    (hc : r.bytes[i - ppos]? = some c) : ∃ bytes, text = some bytes ∧ bytes[i]? = some c := by
  rcases h.bytes with hnil | ⟨bytes, htext, rest, hrest⟩
  · rw [hnil] at hc
    cases hc
  · obtain ⟨hlt, -⟩ := List.getElem?_eq_some_iff.mp hc
    refine ⟨bytes, htext, ?_⟩
    have hdrop : (bytes.drop ppos)[i - ppos]? = some c := by
      rw [← hrest, List.getElem?_append_left hlt, hc]
    rwa [List.getElem?_drop, Nat.add_sub_cancel' hi] at hdrop

theorem toOption_eq_some {r : Except ℤ (List UInt8)} {text : List UInt8}
    (h : r.toOption = some text) : r = .ok text := by
  cases r with
  | error e => cases h
  | ok text' => rw [Option.some.inj h]

theorem infoStep_informed (env : InfoEnv) (st : InfoSt) (count : ℕ) (st' : InfoSt)
    (hI : Informed env st) (h : infoStep env st count = some st') : Informed env st' := by
  have hhands := procInfoRead_handsOut env st.clock count st.ppos
  cases h
  generalize procInfoRead env st.clock count st.ppos = r at hhands ⊢
  have hbyte : ∀ (i : ℕ) (c : UInt8), st.ppos ≤ i → r.bytes[i - st.ppos]? = some c →
      ∃ t < st.clock + 4, ∃ text, env.procRead t = .ok text ∧ text[i]? = some c := by
    intro i c hi hc
    obtain ⟨text, htext, heq⟩ := hhands.byte hi hc
    exact ⟨st.clock + 2, by omega, text, toOption_eq_some htext, heq⟩
  have hold : ∀ (i : ℕ) (c : UInt8), st.out[i]? = some c ∨ (c, i) ∈ st.untold →
      ∃ t < st.clock + 4, ∃ text, env.procRead t = .ok text ∧ text[i]? = some c := by
    intro i c hc
    obtain ⟨t, ht, htext⟩ := hI.byte i c hc
    exact ⟨t, by omega, htext⟩
  have hresults : told (st.results ++ [r.ret]) = st.out.length + max 0 r.ret := by
    rw [← hI.told, told, List.map_append, List.sum_append, List.map_singleton, List.sum_singleton]
    rfl
  by_cases hneg : r.ret < 0
  · refine ⟨?_, ?_, ?_⟩
    · dsimp only
      rw [if_pos hneg, hhands.fails hneg, hI.ppos]
    · dsimp only
      rw [if_pos hneg, hresults, max_eq_left hneg.le, add_zero]
    · intro i c hc
      dsimp only at hc ⊢
      rw [if_pos hneg, if_pos hneg, List.mem_append] at hc
      rcases hc with hc | hc | hc
      · exact hold i c (Or.inl hc)
      · exact hold i c (Or.inr hc)
      · obtain ⟨hi, hget⟩ := List.mk_mem_zipIdx_iff_le_and_getElem?_sub.mp hc
        exact hbyte i c hi hget
  · obtain ⟨hret, hpos⟩ := hhands.succeeds (not_lt.mp hneg)
    refine ⟨?_, ?_, ?_⟩
    · dsimp only
      rw [if_neg hneg, hpos, hI.ppos, List.length_append]
    · dsimp only
      rw [if_neg hneg, hresults, max_eq_right (not_lt.mp hneg), hret, List.length_append]
      push_cast
      rfl
    · intro i c hc
      dsimp only at hc ⊢
      rw [if_neg hneg, if_neg hneg] at hc
      rcases hc with hc | hc
      · rcases Nat.lt_or_ge i st.out.length with hi | hi
        · rw [List.getElem?_append_left hi] at hc
          exact hold i c (Or.inl hc)
        · -- the byte is of the text of this call, behind what was there
          rw [List.getElem?_append_right hi, ← hI.ppos] at hc
          exact hbyte i c (hI.ppos ▸ hi) hc
      · exact hold i c (Or.inr hc)

/-- Nothing keeps a reader from a text that does not change. -/
structure Lasting (env : InfoEnv) (text : List UInt8) : Prop where
  task : ∀ t, env.task t = true
  freePage : ∀ t, env.freePage t = true
  copies : ∀ t n, env.notCopied t n = 0
  procRead : ∀ t, env.procRead t = .ok text

variable {env : InfoEnv} {text : List UInt8}

theorem procInfoRead_lasting (h : Lasting env text) (t count ppos : ℕ) :
    0 ≤ (procInfoRead env t count ppos).ret ∧ (procInfoRead env t count ppos).bytes =
      (text.drop ppos).take (min count procBlockSize) := by
  unfold procInfoRead
  dsimp only
  rw [h.task, h.freePage, h.procRead, if_neg (by decide), if_neg (by decide), blockCount]
  dsimp only
  unfold simpleReadFromBuffer
  split
  · next hlen =>
    refine ⟨le_rfl, ?_⟩
    rw [List.drop_of_length_le hlen, List.take_nil]
  · dsimp only
    rw [h.copies, if_pos (Or.inl rfl), Nat.sub_zero, List.take_length]
    exact ⟨Int.natCast_nonneg _, rfl⟩

/-- The beginning of the text grows by what is asked for, and no call fails. -/
theorem run_infoStep_lasting (h : Lasting env text) : ∀ (counts : List ℕ) (st st' : InfoSt) (k : ℕ),
    run (infoStep env) st counts = some st' → Informed env st → st.out = text.take k →
      st'.out = text.take (k + (counts.map (min · procBlockSize)).sum) ∧
        st'.untold = st.untold := by
  intro counts
  induction counts with
  | nil =>
    intro st st' k hrun _ hout
    cases hrun
    exact ⟨by simpa using hout, rfl⟩
  | cons count counts ih =>
    intro st st' k hrun hI hout
    obtain ⟨st₁, hstep, hrun⟩ := run_cons_eq_some.mp hrun
    have hI₁ := infoStep_informed env st count st₁ hI hstep
    obtain ⟨hret, hbytes⟩ := procInfoRead_lasting h st.clock count st.ppos
    cases hstep
    rw [if_neg hret.not_gt, if_neg hret.not_gt] at hrun hI₁
    have hnext : st.out ++ (procInfoRead env st.clock count st.ppos).bytes =
        text.take (k + min count procBlockSize) := by
      rw [hbytes, hI.ppos, hout, List.take_add, List.length_take]
      congr 2
      rcases Nat.le_total k text.length with hk | hk
      · rw [Nat.min_eq_left hk]
      · rw [Nat.min_eq_right hk, List.drop_length, List.drop_of_length_le hk]
    obtain ⟨hall, huntold⟩ := ih _ st' _ hrun hI₁ hnext
    refine ⟨?_, huntold⟩
    rw [hall, List.map_cons, List.sum_cons, add_assoc]

/-- **What a reader of a text gets**, in any number of calls: the calls that succeed
deliver consecutive bytes and tell of every one, and the offset is behind them.  Each of
these bytes, and each that is delivered by a call that then fails, is the one of its place
in a text that was made on the way.  So if nothing keeps him from a text that does not
change, he gets its beginning, as much as he has asked for, in blocks. -/
theorem info_reads (env : InfoEnv) (counts : List ℕ) :
    ∃ st, run (infoStep env) ⟨0, 0, [], [], []⟩ counts = some st ∧ st.ppos = st.out.length ∧
      told st.results = st.out.length ∧
      (∀ (i : ℕ) (c : UInt8), st.out[i]? = some c ∨ (c, i) ∈ st.untold →
        ∃ t < st.clock, ∃ text, env.procRead t = .ok text ∧ text[i]? = some c) ∧
      ∀ text, Lasting env text →
        st.out = text.take (counts.map (min · procBlockSize)).sum ∧ st.untold = [] := by
  have hstart : Informed env ⟨0, 0, [], [], []⟩ := by
    refine ⟨rfl, rfl, ?_⟩
    intro i c hc
    rcases hc with hc | hc <;> cases hc
  have hrun : ∃ st, run (infoStep env) ⟨0, 0, [], [], []⟩ counts = some st ∧ Informed env st := by
    refine run_total (P := fun _ => True) ?_ counts _ hstart fun _ _ => trivial
    intro st count hI _
    exact ⟨_, rfl, infoStep_informed env st count _ hI rfl⟩
  obtain ⟨st, hrun, hI⟩ := hrun
  refine ⟨st, hrun, hI.ppos, hI.told, hI.byte, fun text hlasting => ?_⟩
  obtain ⟨hout, huntold⟩ := run_infoStep_lasting hlasting counts _ st 0 hrun hstart
    (List.take_zero).symm
  exact ⟨by rw [hout, Nat.zero_add], huntold⟩

/-- A text of three bytes, for a reader whose first buffer ends after one. -/
def afterFault : InfoEnv where
  task := fun _ => true
  freePage := fun _ => true
  procRead := fun _ => .ok [97, 98, 10]
  notCopied := fun t n => if t < 4 then n - 1 else 0
  tellsPart := false
  procRead_neg := fun _ _ h => by cases h
  notCopied_le := by
    intro t n
    split <;> omega

/-- The call that fails has delivered a byte, and the next one delivers it again. -/
example : (run (infoStep afterFault) ⟨0, 0, [], [], []⟩ [2, 2, 2]).map
    (fun st => (st.out, st.untold, st.results)) =
      some ([97, 98, 10], [(97, 0)], [efault, 2, 1]) := by decide

/-! ### The command line -/

/-- The memory of a process, as `proc_pid_cmdline` finds it. -/
structure CmdEnv where
  /-- `mm->arg_start`. -/
  argStart : ℕ
  /-- `mm->arg_end`. -/
  argEnd : ℕ
  /-- `mm->env_start`. -/
  envStart : ℕ
  /-- `mm->env_end`. -/
  envEnd : ℕ
  /-- What `access_process_vm` reads, the first time and the second time. -/
  vm : Bool → ℕ → ℕ → List UInt8
  vm_le : ∀ again a n, (vm again a n).length ≤ n

namespace CmdEnv

variable (m : CmdEnv)

/-- `len`, of the arguments. -/
def argLen : ℕ :=
  let len := u32 ((m.argEnd : ℤ) - m.argStart)
  if pageSize < len then pageSize else len

/-- What is read of the arguments. -/
def args : List UInt8 := m.vm false m.argStart m.argLen

/-- What is read of the environment, behind the arguments. -/
def environ : List UInt8 :=
  let len := u32 ((m.envEnd : ℤ) - m.envStart)
  m.vm true m.envStart (if pageSize - m.args.length < len then pageSize - m.args.length else len)

end CmdEnv

/-- `strnlen`: how many bytes there are before the first that is zero. -/
def strnlen (buffer : List UInt8) : ℕ := (buffer.takeWhile (· ≠ 0)).length

/-- `proc_pid_cmdline`: what it leaves in the buffer. -/
def procPidCmdline (hasMm : Bool) (m : CmdEnv) : List UInt8 :=
  if !hasMm then []
  else if m.argEnd = 0 then []
  else
    let res := m.args.length
    if 0 < res ∧ m.args[res - 1]? ≠ some 0 ∧ m.argLen < pageSize then
      let len := strnlen m.args
      -- `setproctitle` has left a text that ends in the arguments, or goes on behind them
      if len < res then m.args.take len
      else
        let buffer := m.args ++ m.environ
        buffer.take (strnlen buffer)
    else m.args

theorem take_strnlen (buffer : List UInt8) :
    buffer.take (strnlen buffer) = buffer.takeWhile (· ≠ 0) :=
  (List.prefix_iff_eq_take.mp (List.takeWhile_prefix _)).symm

/-- A zero in the front part decides. -/
theorem takeWhile_append_of_lt {as : List UInt8} (h : strnlen as < as.length) (bs : List UInt8) :
    (as ++ bs).takeWhile (· ≠ 0) = as.takeWhile (· ≠ 0) := by
  rw [List.takeWhile_append, if_neg]
  exact h.ne

theorem CmdEnv.argLen_le (m : CmdEnv) : m.argLen ≤ pageSize := by
  unfold argLen
  dsimp only
  split <;> omega

theorem CmdEnv.length_args_le (m : CmdEnv) : m.args.length ≤ m.argLen := m.vm_le _ _ _

theorem CmdEnv.length_environ_le (m : CmdEnv) : m.environ.length ≤ pageSize - m.args.length := by
  refine (m.vm_le _ _ _).trans ?_
  split <;> omega

/-- The process has overwritten its arguments: they do not end with a zero. -/
def CmdEnv.Overwritten (m : CmdEnv) : Prop :=
  m.args ≠ [] ∧ m.args.getLast? ≠ some 0 ∧ m.argLen < pageSize

instance (m : CmdEnv) : Decidable m.Overwritten :=
  inferInstanceAs (Decidable (m.args ≠ [] ∧ m.args.getLast? ≠ some 0 ∧ m.argLen < pageSize))

/-- The environment need not be read if there is a zero before it. -/
theorem procPidCmdline_eq {m : CmdEnv} (hend : m.argEnd ≠ 0) : procPidCmdline true m =
    if m.Overwritten then (m.args ++ m.environ).takeWhile (· ≠ 0) else m.args := by
  have hcond : (0 < m.args.length ∧ m.args[m.args.length - 1]? ≠ some 0 ∧ m.argLen < pageSize) ↔
      m.Overwritten := by
    rw [CmdEnv.Overwritten, List.length_pos_iff, List.getLast?_eq_getElem?]
  unfold procPidCmdline
  dsimp only
  rw [if_neg (by decide), if_neg hend]
  simp only [hcond]
  split
  · split
    · next hlt => rw [take_strnlen, takeWhile_append_of_lt hlt]
    · rw [take_strnlen]
  · rfl

/-- **What is shown of the memory of the process**: the arguments, or, if they have been
overwritten, the text that begins there and may go on in the environment; never more
than a page, and of the environment only what follows arguments without a zero. -/
theorem cmdline_shows (m : CmdEnv) (hend : m.argEnd ≠ 0) :
    (¬ m.Overwritten → procPidCmdline true m = m.args) ∧
      (m.Overwritten → procPidCmdline true m <+: m.args ++ m.environ ∧
        0 ∉ procPidCmdline true m ∧
        ∀ rest, m.args ++ m.environ = procPidCmdline true m ++ rest →
          rest = [] ∨ rest.head? = some 0) ∧
      (procPidCmdline true m).length ≤ pageSize ∧
      (m.args.length < (procPidCmdline true m).length → m.Overwritten ∧ 0 ∉ m.args) := by
  have hargs := m.length_args_le
  have hlen := m.argLen_le
  have henviron := m.length_environ_le
  rw [procPidCmdline_eq hend]
  by_cases hover : m.Overwritten
  · rw [if_pos hover]
    have hpre : (m.args ++ m.environ).takeWhile (· ≠ 0) <+: m.args ++ m.environ :=
      List.takeWhile_prefix _
    have hzero : 0 ∉ (m.args ++ m.environ).takeWhile (· ≠ 0) := by
      intro h
      simpa using List.mem_takeWhile_imp h
    refine ⟨fun h => absurd hover h, fun _ => ⟨hpre, hzero, ?_⟩, ?_, ?_⟩
    · intro rest hrest
      have hsplit := List.takeWhile_append_dropWhile (p := fun c : UInt8 => decide (c ≠ 0))
        (l := m.args ++ m.environ)
      have heq : rest = (m.args ++ m.environ).dropWhile (· ≠ 0) :=
        List.append_cancel_left (hrest.symm.trans hsplit.symm)
      rw [heq]
      cases hdrop : (m.args ++ m.environ).dropWhile (· ≠ 0) with
      | nil => exact Or.inl rfl
      | cons c cs =>
        have hnot := List.head?_dropWhile_not (fun c : UInt8 => decide (c ≠ 0))
          (m.args ++ m.environ)
        rw [hdrop] at hnot
        exact Or.inr (by simpa using hnot)
    · have hle := hpre.length_le
      rw [List.length_append] at hle
      omega
    · intro hlonger
      refine ⟨hover, fun hmem => hzero ?_⟩
      have hprefix := List.prefix_of_prefix_length_le (List.prefix_append m.args m.environ) hpre
        hlonger.le
      exact hprefix.subset hmem
  · rw [if_neg hover]
    refine ⟨fun _ => rfl, fun h => absurd h hover, hargs.trans hlen, fun h => ?_⟩
    exact absurd h (lt_irrefl _)

/-- A process that calls itself `ab` over the arguments `x` and into the environment. -/
def renamed : CmdEnv where
  argStart := 10
  argEnd := 11
  envStart := 11
  envEnd := 14
  vm := fun again _ n => if again then [98, 0, 99].take n else [97].take n
  vm_le := by
    intro again a n
    split <;> exact List.length_take_le _ _

theorem renamed_shows_environment : renamed.argEnd ≠ 0 ∧ procPidCmdline true renamed = [97, 98] ∧
    renamed.Overwritten ∧ 0 ∉ renamed.args := by
  have hshown : procPidCmdline true renamed = [97, 98] := by decide
  have hlonger : renamed.args.length < (procPidCmdline true renamed).length := by decide
  exact ⟨by decide, hshown, (cmdline_shows renamed (by decide)).2.2.2 hlonger⟩

/-! ### What has been read and written -/

/-- The counters of `struct task_io_accounting`. -/
inductive IoField where
  | rchar
  | wchar
  | syscr
  | syscw
  | readBytes
  | writeBytes
  | cancelledWriteBytes

/-- `struct task_io_accounting`. -/
abbrev IoAcct := IoField → BitVec 64

/-- `task_io_accounting_add`. -/
def taskIoAccountingAdd (dst src : IoAcct) : IoAcct := fun f => dst f + src f

/-- `while_each_thread(task, t)`, with the body of `do_io_accounting`. -/
def eachThread (next : TaskPtr → TaskPtr) (ioac : TaskPtr → IoAcct) (task : TaskPtr) :
    ℕ → TaskPtr → IoAcct → Option IoAcct
  | 0, _, _ => none
  | fuel + 1, t, acct =>
      if next t = task then some acct
      else eachThread next ioac task fuel (next t) (taskIoAccountingAdd acct (ioac (next t)))

/-- The counters that `do_io_accounting` prints. -/
def doIoAccounting (fuel : ℕ) (next : TaskPtr → TaskPtr) (ioac : TaskPtr → IoAcct) (signal : IoAcct)
    (locked : Bool) (task : TaskPtr) (whole : Bool) : Option IoAcct :=
  if whole && locked then
    eachThread next ioac task fuel task (taskIoAccountingAdd (ioac task) signal)
  else some (ioac task)

/-- The text. -/
def ioText (acct : IoAcct) : List UInt8 :=
  bytes "rchar: " ++ natText (acct .rchar).toNat ++
  bytes "\nwchar: " ++ natText (acct .wchar).toNat ++
  bytes "\nsyscr: " ++ natText (acct .syscr).toNat ++
  bytes "\nsyscw: " ++ natText (acct .syscw).toNat ++
  bytes "\nread_bytes: " ++ natText (acct .readBytes).toNat ++
  bytes "\nwrite_bytes: " ++ natText (acct .writeBytes).toNat ++
  bytes "\ncancelled_write_bytes: " ++ natText (acct .cancelledWriteBytes).toNat ++ bytes "\n"

section

variable {next : TaskPtr → TaskPtr} {ioac : TaskPtr → IoAcct} {signal : IoAcct}

/-- The threads that are still to come are added. -/
theorem eachThread_of_walk {task : TaskPtr} : ∀ (l : List TaskPtr) (fuel : ℕ) (t : TaskPtr)
    (acct : IoAcct), l.length < fuel → Walk next task (next t) l →
    eachThread next ioac task fuel t acct =
      some fun f => acct f + (l.map fun t => ioac t f).sum := by
  intro l
  induction l with
  | nil =>
    intro fuel t acct hfuel hwalk
    obtain ⟨fuel, rfl⟩ : ∃ k, fuel = k + 1 := ⟨fuel - 1, by omega⟩
    rw [eachThread, if_pos (show next t = task from hwalk)]
    simp
  | cons u l ih =>
    intro fuel t acct hfuel hwalk
    obtain ⟨fuel, rfl⟩ : ∃ k, fuel = k + 1 := ⟨fuel - 1, by omega⟩
    obtain ⟨hnext, hne, hrest⟩ := hwalk
    rw [List.length_cons] at hfuel
    rw [eachThread, if_neg hne, ih fuel _ _ (by omega) hrest, hnext]
    congr 1
    funext f
    rw [List.map_cons, List.sum_cons, taskIoAccountingAdd, add_assoc]

/-- From the thread where one begins. -/
theorem doIoAccounting_ring {task : TaskPtr} {rest : List TaskPtr} (h : IsRing next task rest)
    {fuel : ℕ} (hfuel : rest.length < fuel) :
    doIoAccounting fuel next ioac signal true task true =
      some fun f => signal f + ((task :: rest).map fun t => ioac t f).sum := by
  rw [doIoAccounting, Bool.true_and, if_pos rfl, eachThread_of_walk rest fuel task _ hfuel h.walk]
  congr 1
  funext f
  rw [taskIoAccountingAdd, List.map_cons, List.sum_cons, add_comm (ioac task f), add_assoc]

/-- **Every thread is counted once, whichever of them is asked**: the text for the whole
process is that of the threads that have exited and the sum of those that are there. -/
theorem io_totals {leader : TaskPtr} {rest : List TaskPtr} (h : IsRing next leader rest) {fuel : ℕ}
    (hfuel : rest.length < fuel) (task : TaskPtr) (htask : task ∈ leader :: rest) :
    (doIoAccounting fuel next ioac signal true task true).map ioText =
      some (ioText fun f => signal f + ((leader :: rest).map fun t => ioac t f).sum) := by
  rcases List.mem_cons.mp htask with rfl | hmem
  · rw [doIoAccounting_ring h hfuel]
    rfl
  · obtain ⟨pre, post, rfl⟩ := List.append_of_mem hmem
    have hlen : (post ++ leader :: pre).length < fuel := by
      simp only [List.length_append, List.length_cons] at hfuel ⊢
      omega
    have hperm : (task :: (post ++ leader :: pre)).Perm (leader :: (pre ++ task :: post)) := by
      rw [← List.cons_append, ← List.cons_append]
      exact List.perm_append_comm
    rw [doIoAccounting_ring h.rotate hlen, Option.map_some]
    congr 2
    funext f
    rw [(hperm.map fun t => ioac t f).sum_eq]

end

/-- Two threads: the second one gives the same text as the leader. -/
theorem io_totals_of_second : ∃ text,
    (doIoAccounting 2 (fun t => 1 - t) (fun t _ => BitVec.ofNat 64 (t + 5)) (fun _ => 100) true 1
      true).map ioText = some text ∧
    (doIoAccounting 2 (fun t => 1 - t) (fun t _ => BitVec.ofNat 64 (t + 5)) (fun _ => 100) true 0
      true).map ioText = some text := by
  have hring : IsRing (fun t : TaskPtr => 1 - t) 0 [1] := ⟨by decide, rfl, Nat.one_ne_zero, rfl⟩
  exact ⟨_, io_totals hring (by decide) 1 (by decide), io_totals hring (by decide) 0 (by decide)⟩

end Proc
end KernelStudy
