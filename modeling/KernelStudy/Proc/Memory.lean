import KernelStudy.Lib.Run
import KernelStudy.Proc.Dir

/-!
# Reading the memory and the environment of a process

`/proc/<pid>/mem` and `/proc/<pid>/environ` hand the memory of a process to a reader.
Both copy it page by page through a buffer, and may stop in between: memory is not
mapped, the reader has lost the right to look, or his own buffer is not writable.

## Main definitions

* `MemEnv` — what the code finds at each moment.
* `chunkLoop` — the loop that the two functions share.
* `memRead`, `environRead` — the code.
* `Image env lo hi a n bytes` — what was delivered is consecutive from an address on.
* `Open env limit` — the environment can be read up to there.

## Main results

* `chunkLoop_spec` — **what the loop has delivered when it is left.**
* `mem_reads` — **a reader of `mem` gets an image without gaps, and is told of every
  byte.**
* `environ_confined` — **which offsets lead out of the environment.**
* `environ_reads` — **a reader of `environ` gets the environment, and its end.**
* `environ_loses` — what he is not told of, if it is not all mapped.
-/

namespace KernelStudy
namespace Proc

open Dir (s32 s32_of_lt esrch eio enomem efault)

/-! ### The code -/

/-- What the code finds at each moment. -/
structure MemEnv where
  /-- `get_proc_task` finds a task. -/
  task : ℕ → Bool
  /-- `check_mem_permission` returns 0. -/
  permitted : ℕ → Bool
  /-- `ptrace_may_access`. -/
  mayAccess : ℕ → Bool
  /-- There is a free page. -/
  freePage : ℕ → Bool
  /-- `get_task_mm` finds an `mm`. -/
  hasMm : ℕ → Bool
  /-- `file->private_data` is `current->self_exec_id`. -/
  sameExec : ℕ → Bool
  /-- The memory of the process. -/
  mem : ℕ → ℕ → UInt8
  /-- How many bytes `access_process_vm` copies from an address, of those asked for. -/
  access : ℕ → ℕ → ℕ → ℕ
  /-- How many of so many bytes `copy_to_user` leaves, since the buffer of the reader
  cannot be written there. -/
  notCopied : ℕ → ℕ → ℕ
  /-- `mm->env_start`. -/
  envStart : ℕ
  /-- `mm->env_end`. -/
  envEnd : ℕ
  access_le : ∀ t a n, access t a n ≤ n
  notCopied_le : ∀ t n, notCopied t n ≤ n
  envStart_le : envStart ≤ envEnd
  envEnd_lt : envEnd < 2 ^ 32

/-- A file that is read. -/
structure MemSt where
  /-- The next moment. -/
  clock : ℕ
  /-- `*ppos`. -/
  ppos : ℤ
  /-- What has been delivered, also by a copy that then failed: the bytes, with their
  addresses. -/
  out : List (ℕ × UInt8)

/-- `PAGE_SIZE`. -/
def pageSize : ℕ := 4096

/-- Why a loop is left. -/
inductive Stop where
  /-- There is nothing more to read. -/
  | done
  /-- Nothing could be read. -/
  | noData
  /-- `copy_to_user` has failed. -/
  | fault
  deriving DecidableEq

section

variable (env : MemEnv)

/-- What `access_process_vm` reads from an address. -/
def chunk (t a n : ℕ) : List (ℕ × UInt8) :=
  (List.range (env.access t a n)).map fun i : ℕ => (u32 (a + i), env.mem t (u32 (a + i)))

/-- The loop of `mem_read` and `environ_read`.  They differ in where they read, how much
they ask for and whether they look again if they may.  It is left with the reason, the
number of bytes that were delivered in whole pieces, and `src`. -/
def chunkLoop (base : ℕ) (want : ℕ → ℕ → ℕ) (allowed : ℕ → Bool) :
    ℕ → ℕ → ℕ → ℕ → MemSt → Option (Stop × ℕ × ℕ × MemSt)
  | 0, _, _, _, _ => none
  | fuel + 1, src, count, ret, st =>
      if want src count = 0 then some (.done, ret, src, st)
      else
        let bytes := chunk env st.clock (u32 (base + src)) (want src count)
        -- nothing is mapped there, or the right to look is gone
        if bytes.length = 0 ∨ allowed (st.clock + 1) = false then
          some (.noData, ret, src, { st with clock := st.clock + 2 })
        else if env.notCopied (st.clock + 2) bytes.length ≠ 0 then
          -- the bytes before the fault have been delivered
          let copied := bytes.take (bytes.length - env.notCopied (st.clock + 2) bytes.length)
          some (.fault, ret, src, { st with clock := st.clock + 3, out := st.out ++ copied })
        else
          chunkLoop base want allowed fuel (u32 (src + bytes.length)) (count - bytes.length)
            (ret + bytes.length) { st with clock := st.clock + 3, out := st.out ++ bytes }

/-- What `mem_read` asks for. -/
def memWant (_ count : ℕ) : ℕ := if pageSize < count then pageSize else count

/-- `mem_read`: its result and the file; `none` when the fuel runs out. -/
def memRead (fuel count : ℕ) (st : MemSt) : Option (ℤ × MemSt) :=
  if !env.task st.clock then some (esrch, { st with clock := st.clock + 1 })
  else if !env.permitted (st.clock + 1) then some (esrch, { st with clock := st.clock + 2 })
  else if !env.freePage (st.clock + 2) then some (enomem, { st with clock := st.clock + 3 })
  else if !env.hasMm (st.clock + 3) then some (0, { st with clock := st.clock + 4 })
  else if !env.sameExec (st.clock + 4) then some (eio, { st with clock := st.clock + 5 })
  else
    (chunkLoop env 0 memWant env.permitted fuel (u32 st.ppos) count 0
      { st with clock := st.clock + 5 }).map fun
      | (stop, ret, src, st) =>
          (match stop with
            | .done => s32 ret
            | .noData => if s32 ret = 0 then eio else s32 ret
            | .fault => efault, { st with ppos := src })

/-- What `environ_read` asks for: `this_len` is an `int`. -/
def environWant (src count : ℕ) : ℕ :=
  if count = 0 then 0
  else
    let thisLen := s32 ((env.envEnd : ℤ) - u32 (env.envStart + src))
    -- past the end, as far as an `int` can tell
    if thisLen ≤ 0 then 0
    else
      let maxLen : ℤ := if pageSize < count then pageSize else count
      (if maxLen < thisLen then maxLen else thisLen).toNat

/-- `environ_read`. -/
def environRead (fuel count : ℕ) (st : MemSt) : Option (ℤ × MemSt) :=
  if !env.task st.clock then some (esrch, { st with clock := st.clock + 1 })
  else if !env.mayAccess (st.clock + 1) then some (esrch, { st with clock := st.clock + 2 })
  else if !env.freePage (st.clock + 2) then some (enomem, { st with clock := st.clock + 3 })
  else if !env.hasMm (st.clock + 3) then some (0, { st with clock := st.clock + 4 })
  else
    (chunkLoop env env.envStart (environWant env) (fun _ => true) fuel (u32 st.ppos) count 0
      { st with clock := st.clock + 4 }).map fun
      | (stop, ret, src, st) =>
          (match stop with
            | .done => s32 ret
            -- `ret = retval`, whatever was delivered before
            | .noData => 0
            | .fault => efault, { st with ppos := src })

end

/-! ### The loop -/

theorem u32_add_left (x y : ℤ) : u32 ((u32 x : ℕ) + y) = u32 (x + y) := by
  unfold u32
  omega

theorem u32_lt (x : ℤ) : u32 x < 2 ^ 32 := by
  unfold u32
  omega

/-- The bytes are those of `n` consecutive addresses from `a` on, each as the memory was
at a moment in between. -/
structure Image (env : MemEnv) (lo hi a n : ℕ) (bytes : List (ℕ × UInt8)) : Prop where
  addr : bytes.map Prod.fst = (List.range n).map fun i : ℕ => u32 (a + i)
  byte : ∀ b ∈ bytes, ∃ t, lo ≤ t ∧ t < hi ∧ b.2 = env.mem t b.1

variable {env : MemEnv} {st st' : MemSt}

theorem image_nil (env : MemEnv) (lo hi a : ℕ) : Image env lo hi a 0 [] :=
  ⟨rfl, fun _ hb => absurd hb List.not_mem_nil⟩

theorem image_chunk (env : MemEnv) {t a n lo hi : ℕ} (hlo : lo ≤ t) (hhi : t < hi) :
    Image env lo hi a (env.access t a n) (chunk env t a n) where
  addr := by
    rw [chunk, List.map_map]
    rfl
  byte := by
    intro b hb
    obtain ⟨i, -, rfl⟩ := List.mem_map.mp hb
    exact ⟨t, hlo, hhi, rfl⟩

theorem Image.length_eq {lo hi a n : ℕ} {bs : List (ℕ × UInt8)} (h : Image env lo hi a n bs) :
    bs.length = n := by
  have hlen := congrArg List.length h.addr
  rwa [List.length_map, List.length_map, List.length_range] at hlen

/-- The front part of an image. -/
theorem Image.take {lo hi a n : ℕ} {bs : List (ℕ × UInt8)} (h : Image env lo hi a n bs) (k : ℕ) :
    Image env lo hi a (min k n) (bs.take k) where
  addr := by rw [List.map_take, h.addr, ← List.map_take, List.take_range]
  byte := fun b hb => h.byte b (List.mem_of_mem_take hb)

theorem length_chunk (env : MemEnv) (t a n : ℕ) : (chunk env t a n).length = env.access t a n := by
  rw [chunk, List.length_map, List.length_range]

/-- Two images side by side. -/
theorem Image.append {lo mid hi a m n : ℕ} {bs bs' : List (ℕ × UInt8)}
    (h : Image env lo mid a m bs) (h' : Image env mid hi (u32 ((a : ℤ) + m)) n bs') (hlo : lo ≤ mid)
    (hhi : mid ≤ hi) : Image env lo hi a (m + n) (bs ++ bs') where
  addr := by
    rw [List.map_append, h.addr, h'.addr, List.range_add, List.map_append, List.map_map]
    congr 1
    apply List.map_congr_left
    intro i _
    rw [u32_add_left, Function.comp_apply]
    push_cast
    rw [add_assoc]
  byte := by
    intro b hb
    rcases List.mem_append.mp hb with hb | hb
    · obtain ⟨t, h₁, h₂, heq⟩ := h.byte b hb
      exact ⟨t, h₁, by omega, heq⟩
    · obtain ⟨t, h₁, h₂, heq⟩ := h'.byte b hb
      exact ⟨t, by omega, h₂, heq⟩

/-- What the loop has done when it is left: `n` bytes have been delivered in whole pieces,
and this is why there are no more.  If a copy has failed, a part of one more piece may
have been delivered. -/
structure Left (env : MemEnv) (base : ℕ) (want : ℕ → ℕ → ℕ) (allowed : ℕ → Bool)
    (src count : ℕ) (st : MemSt) (stop : Stop) (n src' : ℕ) (st' : MemSt) : Prop where
  le : n ≤ count
  src_eq : src' = u32 (src + n)
  clock : st.clock ≤ st'.clock
  ppos : st'.ppos = st.ppos
  out : ∃ bytes, st'.out = st.out ++ bytes ∧ n ≤ bytes.length ∧
    (stop ≠ .fault → bytes.length = n) ∧
    Image env st.clock st'.clock (u32 (base + src)) bytes.length bytes
  done : stop = .done → want src' (count - n) = 0
  noData : stop = .noData → want src' (count - n) ≠ 0 ∧
    ((∃ t, env.access t (u32 (base + src')) (want src' (count - n)) = 0) ∨ ∃ t, allowed t = false)
  fault : stop = .fault → ∃ t n, env.notCopied t n ≠ 0

/-- The loop is left before it has delivered a piece. -/
theorem left_at_once {base src count k : ℕ} {want : ℕ → ℕ → ℕ} {allowed : ℕ → Bool} {stop : Stop}
    (hsrc : src < 2 ^ 32) (hdone : stop = .done → want src count = 0)
    (hnoData : stop = .noData → want src count ≠ 0 ∧
      ((∃ t, env.access t (u32 (base + src)) (want src count) = 0) ∨ ∃ t, allowed t = false))
    (hfault : stop ≠ .fault) :
    Left env base want allowed src count st stop 0 src { st with clock := st.clock + k } where
  le := Nat.zero_le _
  src_eq := by rw [Nat.cast_zero, add_zero, u32_of_lt hsrc]
  clock := Nat.le_add_right _ _
  ppos := rfl
  out := ⟨[], (List.append_nil _).symm, le_rfl, fun _ => rfl, image_nil _ _ _ _⟩
  done := hdone
  noData := hnoData
  fault := fun h => absurd h hfault

/-- **What the loop has delivered when it is left.** -/
theorem chunkLoop_spec (env : MemEnv) (base : ℕ) {want : ℕ → ℕ → ℕ} (allowed : ℕ → Bool)
    (hwant : ∀ src count, want src count ≤ count) : ∀ (fuel src count ret : ℕ) (st : MemSt),
    count < fuel → src < 2 ^ 32 → ∃ stop n src' st',
      chunkLoop env base want allowed fuel src count ret st = some (stop, ret + n, src', st') ∧
      Left env base want allowed src count st stop n src' st' := by
  intro fuel
  induction fuel with
  | zero => intro src count ret st h; omega
  | succ fuel ih =>
    intro src count ret st hfuel hsrc
    rw [chunkLoop]
    split
    · next hend =>
      refine ⟨.done, 0, src, st, rfl, left_at_once hsrc (fun _ => hend) ?_ ?_ (k := 0)⟩
      · intro h; cases h
      · intro h; cases h
    · next hmore =>
      dsimp only
      rw [length_chunk]
      split
      · next hno =>
        refine ⟨.noData, 0, src, _, rfl, left_at_once hsrc ?_ ?_ ?_⟩
        · intro h; cases h
        · intro _
          exact ⟨hmore, hno.imp (fun h => ⟨_, h⟩) fun h => ⟨_, h⟩⟩
        · intro h; cases h
      · next hdata =>
        have hchunk : Image env st.clock (st.clock + 3) (u32 (base + src)) _ _ :=
          image_chunk env (n := want src count) le_rfl (by omega)
        split
        · next hfault =>
          -- of the chunk, what is before the fault is delivered
          refine ⟨.fault, 0, src, _, rfl, Nat.zero_le _, ?_, Nat.le_add_right _ _, rfl,
            ⟨_, rfl, Nat.zero_le _, ?_, ?_⟩, ?_, ?_, fun _ => ⟨_, _, hfault⟩⟩
          · rw [Nat.cast_zero, add_zero, u32_of_lt hsrc]
          · intro h
            exact absurd rfl h
          · rw [(hchunk.take _).length_eq]
            exact hchunk.take _
          · intro h; cases h
          · intro h; cases h
        · -- the chunk is delivered, and there is less to do
          have hle := (env.access_le st.clock (u32 (base + src)) (want src count)).trans
            (hwant src count)
          generalize chunk env st.clock (u32 (base + src)) (want src count) = bytes at *
          generalize env.access st.clock (u32 (base + src)) (want src count) = m at *
          obtain ⟨stop, n, src', st', hloop, hleft⟩ := ih (u32 (src + m)) (count - m) (ret + m)
            { st with clock := st.clock + 3, out := st.out ++ bytes } (by omega) (u32_lt _)
          have hsrc' : src' = u32 (src + (m + n : ℕ)) := by
            rw [hleft.src_eq, u32_add_left]
            push_cast
            rw [add_assoc]
          have hrest : count - m - n = count - (m + n) := by omega
          have hn := hleft.le
          obtain ⟨bytes', hout, hmore, hall, himage⟩ := hleft.out
          have hlen := hchunk.length_eq
          refine ⟨stop, m + n, src', st', ?_, ⟨by omega, hsrc', ?_, hleft.ppos,
            ⟨bytes ++ bytes', ?_, ?_, ?_, ?_⟩, ?_, ?_, hleft.fault⟩⟩
          · rw [hloop, add_assoc]
          · exact (Nat.le_add_right _ 3).trans hleft.clock
          · rw [hout, List.append_assoc]
          · rw [List.length_append, hlen]
            omega
          · intro hne
            rw [List.length_append, hlen, hall hne]
          · have hbase : u32 (base + u32 (src + m)) = u32 ((u32 (base + src) : ℕ) + (m : ℤ)) := by
              rw [u32_add_left, add_comm (base : ℤ), u32_add_left]
              congr 1
              ring
            rw [hbase] at himage
            rw [List.length_append, hlen]
            exact hchunk.append himage (by omega) hleft.clock
          · rw [← hrest]
            exact hleft.done
          · rw [← hrest]
            exact hleft.noData

/-! ### Reading `mem` -/

/-- Calls one after the other, for so many bytes each; with their results. -/
def readAll (read : ℕ → ℕ → MemSt → Option (ℤ × MemSt)) :
    List ℕ → MemSt → Option (List ℤ × MemSt)
  | [], st => some ([], st)
  | count :: counts, st =>
      (read (count + 1) count st).bind fun r =>
        (readAll read counts r.2).map fun rs => (r.1 :: rs.1, rs.2)

/-- The bytes that results speak of. -/
def told (results : List ℤ) : ℤ := (results.map (max 0)).sum

theorem memWant_le (src count : ℕ) : memWant src count ≤ count := by
  unfold memWant
  split
  · omega
  · exact le_rfl

/-- A call has delivered `n` bytes from its offset on, and stands behind them. -/
structure Delivered (env : MemEnv) (base : ℕ) (st : MemSt) (n : ℕ) (st' : MemSt) : Prop where
  clock : st.clock ≤ st'.clock
  ppos : st'.ppos = u32 (st.ppos + n)
  out : ∃ bytes, st'.out = st.out ++ bytes ∧
    Image env st.clock st'.clock (u32 (base + st.ppos)) n bytes

/-- A call that does not come to its loop. -/
theorem delivered_none (env : MemEnv) (base : ℕ) (hpos : st.ppos = u32 st.ppos) {k : ℕ} :
    Delivered env base st 0 { st with clock := st.clock + k } where
  clock := Nat.le_add_right _ _
  ppos := by
    rw [Nat.cast_zero, add_zero]
    exact hpos
  out := ⟨[], (List.append_nil _).symm, image_nil _ _ _ _⟩

/-- A call whose loop is left, and not for a fault. -/
theorem Left.delivered {base : ℕ} {want : ℕ → ℕ → ℕ} {allowed : ℕ → Bool} {count k n src' : ℕ}
    {stop : Stop} (h : Left env base want allowed (u32 st.ppos) count
      { st with clock := st.clock + k } stop n src' st') (hne : stop ≠ .fault) :
    Delivered env base st n { st' with ppos := src' } where
  clock := (Nat.le_add_right _ _).trans h.clock
  ppos := by
    dsimp only
    rw [h.src_eq, u32_add_left]
  out := by
    obtain ⟨bytes, hout, -, hall, haddr, hbyte⟩ := h.out
    have hbase : u32 ((base : ℤ) + u32 st.ppos) = u32 (base + st.ppos) := by
      rw [add_comm, u32_add_left, add_comm]
    rw [hall hne] at haddr
    refine ⟨bytes, hout, ?_, ?_⟩
    · rw [haddr, hbase]
    · intro b hb
      obtain ⟨t, hlo, hhi, heq⟩ := hbyte b hb
      exact ⟨t, (Nat.le_add_right _ _).trans hlo, hhi, heq⟩

/-- **One call of `mem_read`**: if the copying does not fail, it tells how much it has
delivered. -/
theorem memRead_spec (hcopy : ∀ t n, env.notCopied t n = 0) (hpos : st.ppos = u32 st.ppos)
    {count : ℕ} (hcount : count < 2 ^ 31) :
    ∃ ret st' n, memRead env (count + 1) count st = some (ret, st') ∧
      Delivered env 0 st n st' ∧ max 0 ret = n := by
  unfold memRead
  split
  · exact ⟨_, _, 0, rfl, delivered_none env 0 hpos, rfl⟩
  · split
    · exact ⟨_, _, 0, rfl, delivered_none env 0 hpos, rfl⟩
    · split
      · exact ⟨_, _, 0, rfl, delivered_none env 0 hpos, rfl⟩
      · split
        · exact ⟨_, _, 0, rfl, delivered_none env 0 hpos, rfl⟩
        · split
          · exact ⟨_, _, 0, rfl, delivered_none env 0 hpos, rfl⟩
          · obtain ⟨stop, n, src', st', hloop, hleft⟩ := chunkLoop_spec env 0 env.permitted
              memWant_le (count + 1) (u32 st.ppos) count 0 { st with clock := st.clock + 5 }
              (Nat.lt_succ_self _) (u32_lt _)
            have hne : stop ≠ .fault := by
              intro h
              obtain ⟨t, n, hfault⟩ := hleft.fault h
              exact hfault (hcopy t n)
            rw [hloop, Nat.zero_add]
            refine ⟨_, _, n, rfl, hleft.delivered hne, ?_⟩
            rw [s32_of_lt (hleft.le.trans_lt hcount)]
            cases stop with
            | done => exact max_eq_right (Int.natCast_nonneg n)
            | noData =>
              dsimp only
              split
              · next hzero =>
                rw [Int.natCast_eq_zero.mp hzero]
                rfl
              · exact max_eq_right (Int.natCast_nonneg n)
            | fault => exact absurd rfl hne

/-- One call after another. -/
theorem Delivered.trans {base n m : ℕ} {st₁ st₂ : MemSt} (h : Delivered env base st n st₁)
    (h' : Delivered env base st₁ m st₂) : Delivered env base st (n + m) st₂ where
  clock := h.clock.trans h'.clock
  ppos := by
    rw [h'.ppos, h.ppos, u32_add_left]
    push_cast
    rw [add_assoc]
  out := by
    obtain ⟨bytes, hout, himage⟩ := h.out
    obtain ⟨bytes', hout', himage'⟩ := h'.out
    refine ⟨bytes ++ bytes', by rw [hout', hout, List.append_assoc], ?_⟩
    have hbase : u32 ((base : ℤ) + st₁.ppos) = u32 ((u32 (base + st.ppos) : ℕ) + (n : ℤ)) := by
      rw [h.ppos, u32_add_left, add_comm, u32_add_left]
      congr 1
      ring
    rw [hbase] at himage'
    exact himage.append himage' h.clock h'.clock

theorem Delivered.length {base n : ℕ} (h : Delivered env base st n st') :
    st'.out.length = st.out.length + n := by
  obtain ⟨bytes, hout, himage⟩ := h.out
  rw [hout, List.length_append, himage.length_eq]

/-- If each call tells what it has delivered, so do the results of all of them. -/
theorem readAll_spec {base : ℕ} {read : ℕ → ℕ → MemSt → Option (ℤ × MemSt)}
    (hread : ∀ (st : MemSt) (count : ℕ), st.ppos = u32 st.ppos → count < 2 ^ 31 → ∃ ret st' n,
      read (count + 1) count st = some (ret, st') ∧ Delivered env base st n st' ∧ max 0 ret = n) :
    ∀ (counts : List ℕ) (st : MemSt), (∀ count ∈ counts, count < 2 ^ 31) → st.ppos = u32 st.ppos →
      ∃ results st' n, readAll read counts st = some (results, st') ∧
        Delivered env base st n st' ∧ told results = n := by
  intro counts
  induction counts with
  | nil =>
    intro st _ hpos
    exact ⟨[], st, 0, rfl, delivered_none env base hpos (k := 0), rfl⟩
  | cons count counts ih =>
    intro st hcounts hpos
    obtain ⟨hcount, hcounts⟩ := List.forall_mem_cons.mp hcounts
    obtain ⟨ret, st₁, n, hcall, hdelivered, hret⟩ := hread st count hpos hcount
    have hpos₁ : st₁.ppos = u32 st₁.ppos := by
      rw [hdelivered.ppos, u32_of_lt (u32_lt _)]
    obtain ⟨results, st₂, m, hrest, hdelivered', htold⟩ := ih st₁ hcounts hpos₁
    refine ⟨ret :: results, st₂, n + m, ?_, hdelivered.trans hdelivered', ?_⟩
    · rw [readAll, hcall, Option.bind_some, hrest]
      rfl
    · rw [told, List.map_cons, List.sum_cons, hret]
      rw [told] at htold
      rw [htold]
      push_cast
      rfl

/-- A process whose memory ends at an address, with eight bytes of environment at 4. -/
def memUpTo (top : ℕ) : MemEnv where
  task := fun _ => true
  permitted := fun _ => true
  mayAccess := fun _ => true
  freePage := fun _ => true
  hasMm := fun _ => true
  sameExec := fun _ => true
  mem := fun _ a => a.toUInt8
  access := fun _ a n => min n (top - a)
  notCopied := fun _ _ => 0
  envStart := 4
  envEnd := 12
  access_le := fun _ _ _ => Nat.min_le_left _ _
  notCopied_le := fun _ _ => Nat.zero_le _
  envStart_le := by omega
  envEnd_lt := by omega

/-- **A reader of `mem` gets an image without gaps, and is told of every byte**, however
the calls cut it and whenever they stop, as long as his own buffer can be written: after
any calls, what he holds are the bytes of consecutive addresses from his offset on, their
number is the sum of the results, and the offset stands behind them. -/
theorem mem_reads (env : MemEnv) (hcopy : ∀ t n, env.notCopied t n = 0) {pos : ℕ}
    (hpos : pos < 2 ^ 32) (counts : List ℕ) (hcounts : ∀ count ∈ counts, count < 2 ^ 31) :
    ∃ results st, readAll (memRead env) counts ⟨0, pos, []⟩ = some (results, st) ∧
      told results = st.out.length ∧ st.ppos = u32 (pos + st.out.length) ∧
      Image env 0 st.clock pos st.out.length st.out := by
  have hoffset : (pos : ℤ) = u32 pos := by rw [u32_of_lt hpos]
  obtain ⟨results, st, n, hall, hdelivered, htold⟩ :=
    readAll_spec (fun _ _ h hcount => memRead_spec hcopy h hcount) counts ⟨0, pos, []⟩ hcounts
      hoffset
  have hlen : st.out.length = n := by
    rw [hdelivered.length, List.length_nil, Nat.zero_add]
  obtain ⟨bytes, hout, himage⟩ := hdelivered.out
  refine ⟨results, st, hall, by rw [hlen]; exact htold, by rw [hlen]; exact hdelivered.ppos, ?_⟩
  dsimp only at himage
  rw [Nat.cast_zero, zero_add, u32_of_lt hpos] at himage
  rw [hlen, hout, List.nil_append]
  exact himage

/-- The second call is cut short by the end of the memory. -/
theorem mem_reads_up_to_end :
    (readAll (memRead (memUpTo 20)) [3, 5, 5] ⟨0, 14, []⟩).map (fun r => r.1) = some [3, 3, eio] ∧
      ∃ results st,
        readAll (memRead (memUpTo 20)) [3, 5, 5] ⟨0, (14 : ℕ), []⟩ = some (results, st) ∧
        told results = st.out.length ∧ st.ppos = u32 ((14 : ℕ) + st.out.length) ∧
        Image (memUpTo 20) 0 st.clock 14 st.out.length st.out :=
  ⟨by decide, mem_reads (memUpTo 20) (fun _ _ => rfl) (by omega) [3, 5, 5] (by decide)⟩

/-! ### Reading `environ` -/

/-- The length of the environment. -/
def MemEnv.envLen (env : MemEnv) : ℕ := env.envEnd - env.envStart

theorem environWant_le (src count : ℕ) : environWant env src count ≤ count := by
  unfold environWant
  split
  · exact Nat.zero_le _
  · dsimp only
    split
    · exact Nat.zero_le _
    · split <;> split <;> unfold pageSize at * <;> omega

/-- In the environment, `this_len` is what is left of it. -/
theorem environWant_of_le {src : ℕ} (hlen : env.envLen < 2 ^ 31) (hsrc : src ≤ env.envLen)
    (count : ℕ) : environWant env src count = min (min count pageSize) (env.envLen - src) := by
  have hstart := env.envStart_le
  have hend := env.envEnd_lt
  unfold MemEnv.envLen at *
  have haddr : u32 ((env.envStart : ℤ) + src) = env.envStart + src := by
    unfold u32
    omega
  have hthis : s32 ((env.envEnd : ℤ) - u32 ((env.envStart : ℤ) + src)) =
      (env.envEnd - env.envStart - src : ℕ) := by
    rw [haddr]
    unfold s32
    omega
  unfold environWant
  rw [hthis]
  split
  · next hzero => omega
  · dsimp only
    split
    · next hnone => omega
    · split <;> split <;> omega

/-- A loop that never gets more than is left up to `limit` delivers no more. -/
theorem chunkLoop_bounded {base : ℕ} {want : ℕ → ℕ → ℕ} {allowed : ℕ → Bool} (limit : ℕ)
    (hlimit : limit < 2 ^ 32) (hget : ∀ (t src count : ℕ), src ≤ limit →
      env.access t (u32 (base + src)) (want src count) ≤ limit - src) :
    ∀ (fuel src count ret : ℕ) (st : MemSt) {stop : Stop} {ret' src' : ℕ} {st' : MemSt},
      src ≤ limit →
      chunkLoop env base want allowed fuel src count ret st = some (stop, ret', src', st') →
      st'.out.length ≤ st.out.length + (limit - src) := by
  intro fuel
  induction fuel with
  | zero => intro src count ret st stop ret' src' st' _ h; cases h
  | succ fuel ih =>
    intro src count ret st stop ret' src' st' hsrc h
    rw [chunkLoop] at h
    dsimp only at h
    rw [length_chunk] at h
    have hle := hget st.clock src count hsrc
    have hlen := length_chunk env st.clock (u32 (base + src)) (want src count)
    split at h
    · cases h
      exact Nat.le_add_right _ _
    · split at h
      · cases h
        exact Nat.le_add_right _ _
      · split at h
        · cases h
          dsimp only
          rw [List.length_append, List.length_take]
          omega
        · generalize chunk env st.clock (u32 (base + src)) (want src count) = bytes at *
          generalize env.access st.clock (u32 (base + src)) (want src count) = m at *
          have hnext : u32 ((src : ℤ) + m) = src + m := by
            unfold u32
            omega
          rw [hnext] at h
          have hrest := ih _ _ _ _ (by omega) h
          rw [List.length_append] at hrest
          omega

/-- The result of `environ_read`, from how its loop was left. -/
def environRet (stop : Stop) (ret : ℕ) : ℤ :=
  match stop with
  | .done => s32 ret
  | .noData => 0
  | .fault => efault

/-- The ways through `environ_read`: it fails at once, or its loop is left. -/
theorem environRead_cases (env : MemEnv) (count : ℕ) (st : MemSt) :
    (∃ ret k, environRead env (count + 1) count st =
      some (ret, { st with clock := st.clock + k }) ∧ ret ≤ 0 ∧
      ¬ (env.task st.clock = true ∧ env.mayAccess (st.clock + 1) = true ∧
        env.freePage (st.clock + 2) = true ∧ env.hasMm (st.clock + 3) = true)) ∨
    ∃ stop n src' st', environRead env (count + 1) count st =
        some (environRet stop n, { st' with ppos := src' }) ∧
      chunkLoop env env.envStart (environWant env) (fun _ => true) (count + 1) (u32 st.ppos) count 0
        { st with clock := st.clock + 4 } = some (stop, n, src', st') ∧
      Left env env.envStart (environWant env) (fun _ => true) (u32 st.ppos) count
        { st with clock := st.clock + 4 } stop n src' st' := by
  unfold environRead
  split
  · next h => exact Or.inl ⟨_, 1, rfl, by decide, fun hall => by simp [hall.1] at h⟩
  · split
    · next h => exact Or.inl ⟨_, 2, rfl, by decide, fun hall => by simp [hall.2.1] at h⟩
    · split
      · next h => exact Or.inl ⟨_, 3, rfl, by decide, fun hall => by simp [hall.2.2.1] at h⟩
      · split
        · next h => exact Or.inl ⟨_, 4, rfl, le_rfl, fun hall => by simp [hall.2.2.2] at h⟩
        · right
          obtain ⟨stop, n, src', st', hloop, hleft⟩ := chunkLoop_spec env env.envStart
            (fun _ => true) environWant_le (count + 1) (u32 st.ppos) count 0
            { st with clock := st.clock + 4 } (Nat.lt_succ_self _) (u32_lt _)
          rw [Nat.zero_add] at hloop
          refine ⟨stop, n, src', st', ?_, hloop, hleft⟩
          rw [hloop]
          rfl

/-- Nothing keeps a reader from the environment: he may look, and both his buffer and the
first `limit` bytes of the environment are there, but no more of it. -/
structure Open (env : MemEnv) (limit : ℕ) : Prop where
  task : ∀ t, env.task t = true
  mayAccess : ∀ t, env.mayAccess t = true
  freePage : ∀ t, env.freePage t = true
  hasMm : ∀ t, env.hasMm t = true
  copies : ∀ t n, env.notCopied t n = 0
  limit_le : limit ≤ env.envLen
  mapped : ∀ t src n, src ≤ limit → src + n ≤ env.envLen →
    env.access t (env.envStart + src) n = min n (limit - src)

theorem Open.access_eq {limit : ℕ} (hlen : env.envLen < 2 ^ 31) (h : Open env limit) {src : ℕ}
    (hsrc : src ≤ limit) (t count : ℕ) :
    env.access t (u32 (env.envStart + src)) (environWant env src count) =
      min (environWant env src count) (limit - src) := by
  have hwant := environWant_of_le hlen (hsrc.trans h.limit_le) count
  have hstart := env.envStart_le
  have hend := env.envEnd_lt
  have hlimit := h.limit_le
  have hbound : src + environWant env src count ≤ env.envLen := by omega
  unfold MemEnv.envLen at hlimit
  have haddr : u32 ((env.envStart : ℤ) + src) = env.envStart + src := by
    unfold u32
    omega
  rw [haddr, h.mapped t src _ hsrc hbound]

/-- What a call at `pos` is told, if the environment is mapped up to `limit`: a call that
runs into what is not mapped is told that there is nothing. -/
def environTells (env : MemEnv) (limit pos count : ℕ) : ℤ :=
  if limit < env.envLen ∧ limit - pos < count then 0 else ((min count (limit - pos) : ℕ) : ℤ)

/-- **One call of `environ_read`**, up to where the environment is mapped. -/
theorem environRead_open {limit pos : ℕ} (hlen : env.envLen < 2 ^ 31) (h : Open env limit)
    (hpos : pos ≤ limit) (hst : st.ppos = pos) {count : ℕ} (hcount : count < 2 ^ 31) :
    ∃ st', environRead env (count + 1) count st = some (environTells env limit pos count, st') ∧
      Delivered env env.envStart st (min count (limit - pos)) st' := by
  have hlimit := h.limit_le
  have hsrc : u32 st.ppos = pos := by rw [hst, u32_of_lt (by omega)]
  rcases environRead_cases env count st with ⟨ret, k, -, -, hgate⟩ |
    ⟨stop, n, src', st', hcall, hloop, hleft⟩
  · exact absurd ⟨h.task _, h.mayAccess _, h.freePage _, h.hasMm _⟩ hgate
  · have hn : n ≤ limit - pos := by
      rw [hsrc] at hloop
      have hle := chunkLoop_bounded limit (by omega)
        (fun t src count hsrc => by
          rw [h.access_eq hlen hsrc]
          exact min_le_right _ _) _ _ _ _ _ hpos hloop
      obtain ⟨bytes, hout, hmore, -⟩ := hleft.out
      rw [hout, List.length_append] at hle
      omega
    have hnext : src' = pos + n := by
      rw [hleft.src_eq, hsrc, ← Nat.cast_add, u32_of_lt (by omega)]
    have hwant : environWant env src' (count - n) =
        min (min (count - n) pageSize) (env.envLen - src') :=
      environWant_of_le hlen (by omega) _
    have hne : stop ≠ .fault := by
      intro hstop
      obtain ⟨t, n, hfault⟩ := hleft.fault hstop
      exact hfault (h.copies t n)
    have hle := hleft.le
    have hdelivered := hleft.delivered hne
    have hpage : 0 < pageSize := by decide
    rw [hcall]
    cases stop with
    | done =>
      -- all that was asked for has been delivered, or all of the environment
      have hzero := hleft.done rfl
      rw [hwant] at hzero
      have hmin : min count (limit - pos) = n := by omega
      refine ⟨{ st' with ppos := src' }, ?_, by rw [hmin]; exact hdelivered⟩
      rw [environTells, hmin, if_neg (by omega), environRet, s32_of_lt (hle.trans_lt hcount)]
    | noData =>
      obtain ⟨hmore, ⟨t, ht⟩ | ⟨t, ht⟩⟩ := hleft.noData rfl
      · rw [h.access_eq hlen (by omega), hwant] at ht
        rw [hwant] at hmore
        have hmin : min count (limit - pos) = n := by omega
        refine ⟨{ st' with ppos := src' }, ?_, by rw [hmin]; exact hdelivered⟩
        rw [environTells, if_pos (by omega), environRet]
      · cases ht
    | fault => exact absurd rfl hne

/-- What calls are told, from `pos` on. -/
def environTold (env : MemEnv) (limit : ℕ) : ℕ → List ℕ → List ℤ
  | _, [] => []
  | pos, count :: counts =>
      environTells env limit pos count ::
        environTold env limit (pos + min count (limit - pos)) counts

/-- **Calls of `environ_read` one after the other.** -/
theorem readAll_open {limit : ℕ} (hlen : env.envLen < 2 ^ 31) (h : Open env limit) :
    ∀ (counts : List ℕ) (pos : ℕ) (st : MemSt), (∀ count ∈ counts, count < 2 ^ 31) →
      pos ≤ limit → st.ppos = pos →
      ∃ st', readAll (environRead env) counts st = some (environTold env limit pos counts, st') ∧
        Delivered env env.envStart st (min counts.sum (limit - pos)) st' := by
  have hlimit := h.limit_le
  intro counts
  induction counts with
  | nil =>
    intro pos st _ hpos hst
    refine ⟨st, rfl, ?_⟩
    rw [List.sum_nil, Nat.zero_min]
    exact delivered_none env env.envStart (by rw [hst, u32_of_lt (by omega)]) (k := 0)
  | cons count counts ih =>
    intro pos st hcounts hpos hst
    obtain ⟨hcount, hcounts⟩ := List.forall_mem_cons.mp hcounts
    obtain ⟨st₁, hcall, hdelivered⟩ := environRead_open hlen h hpos hst hcount
    have hst₁ : st₁.ppos = (pos + min count (limit - pos) : ℕ) := by
      rw [hdelivered.ppos, hst, ← Nat.cast_add, u32_of_lt (by omega)]
    obtain ⟨st₂, hrest, hdelivered'⟩ := ih _ st₁ hcounts (by omega) hst₁
    refine ⟨st₂, ?_, ?_⟩
    · rw [readAll, hcall, Option.bind_some, hrest]
      rfl
    · have hsum : min (count :: counts).sum (limit - pos) = min count (limit - pos) +
          min counts.sum (limit - (pos + min count (limit - pos))) := by
        rw [List.sum_cons]
        omega
      rw [hsum]
      exact hdelivered.trans hdelivered'

/-- If all of the environment is mapped, a call is told what it has got. -/
theorem environTells_envLen (pos count : ℕ) :
    environTells env env.envLen pos count = (min count (env.envLen - pos) : ℕ) :=
  if_neg fun h => lt_irrefl _ h.1

theorem told_environTold_envLen (counts : List ℕ) : ∀ pos ≤ env.envLen,
    told (environTold env env.envLen pos counts) = (min counts.sum (env.envLen - pos) : ℕ) := by
  induction counts with
  | nil =>
    intro pos _
    rw [List.sum_nil, Nat.zero_min]
    rfl
  | cons count counts ih =>
    intro pos hpos
    have hrest := ih (pos + min count (env.envLen - pos)) (by omega)
    rw [told] at hrest
    rw [environTold, told, List.map_cons, List.sum_cons, hrest, environTells_envLen,
      max_eq_right (Int.natCast_nonneg _), List.sum_cons]
    omega

theorem environTold_zero (counts : List ℕ) : ∀ pos ≤ env.envLen, ∀ p ∈
    counts.zip (environTold env env.envLen pos counts), 0 < p.1 → p.2 = 0 →
      env.envLen ≤ pos + counts.sum := by
  induction counts with
  | nil =>
    intro pos _ p hp
    exact absurd hp List.not_mem_nil
  | cons count counts ih =>
    intro pos hpos p hp hasked hzero
    rw [environTold, List.zip_cons_cons, List.mem_cons] at hp
    rw [List.sum_cons]
    rcases hp with rfl | hp
    · dsimp only at hasked hzero
      rw [environTells_envLen] at hzero
      omega
    · have hrest := ih _ (by omega) p hp hasked hzero
      omega

/-- The memory ends in the environment, or somewhere behind it. -/
theorem memUpTo_open {limit top : ℕ} (h : limit ≤ 8)
    (htop : top = 4 + limit ∨ limit = 8 ∧ 12 ≤ top) : Open (memUpTo top) limit where
  task := fun _ => rfl
  mayAccess := fun _ => rfl
  freePage := fun _ => rfl
  hasMm := fun _ => rfl
  copies := fun _ _ => rfl
  limit_le := h
  mapped := by
    intro t src n hsrc hbound
    have hlen : (memUpTo top).envLen = 8 := rfl
    change min n (top - (4 + src)) = min n (limit - src)
    omega

/-- **A reader of `environ` gets the environment, and its end**, however the calls cut
it: after any calls he holds its first bytes, as many as he has asked for, and is told of
each; and once he has asked for something and is told of nothing, he has it all. -/
theorem environ_reads (env : MemEnv) (hlen : env.envLen < 2 ^ 31) (h : Open env env.envLen)
    (counts : List ℕ) (hcounts : ∀ count ∈ counts, count < 2 ^ 31) :
    ∃ results st, readAll (environRead env) counts ⟨0, 0, []⟩ = some (results, st) ∧
      st.out.length = min counts.sum env.envLen ∧ told results = st.out.length ∧
      st.ppos = st.out.length ∧ Image env 0 st.clock env.envStart st.out.length st.out ∧
      ∀ p ∈ counts.zip results, 0 < p.1 → p.2 = 0 → st.out.length = env.envLen := by
  have hstart := env.envStart_le
  have hend := env.envEnd_lt
  obtain ⟨st, hall, hdelivered⟩ :=
    readAll_open hlen h counts 0 ⟨0, 0, []⟩ hcounts (Nat.zero_le _) rfl
  have hout : st.out.length = min counts.sum env.envLen := by
    rw [hdelivered.length, List.length_nil, Nat.zero_add, Nat.sub_zero]
  refine ⟨_, st, hall, hout, ?_, ?_, ?_, ?_⟩
  · rw [told_environTold_envLen counts 0 (Nat.zero_le _), hout, Nat.sub_zero]
  · rw [hdelivered.ppos, hout, zero_add, Nat.sub_zero, u32_of_lt (by omega)]
  · obtain ⟨bytes, hbytes, himage⟩ := hdelivered.out
    dsimp only at himage
    rw [add_zero, u32_of_lt (by omega), Nat.sub_zero, ← hout] at himage
    rw [hbytes, List.nil_append] at himage ⊢
    exact himage
  · intro p hp hasked hzero
    have hle := environTold_zero counts 0 (Nat.zero_le _) p hp hasked hzero
    omega

/-- Three calls of five bytes read an environment of eight, with more memory behind it. -/
theorem environ_reads_of_eight :
    (readAll (environRead (memUpTo 20)) [5, 5, 5] ⟨0, 0, []⟩).map (fun r => r.1) =
      some [5, 3, 0] ∧
    ∃ results st, readAll (environRead (memUpTo 20)) [5, 5, 5] ⟨0, 0, []⟩ = some (results, st) ∧
      st.out.length = min [5, 5, 5].sum (memUpTo 20).envLen ∧ told results = st.out.length ∧
      st.ppos = st.out.length ∧
      Image (memUpTo 20) 0 st.clock (memUpTo 20).envStart st.out.length st.out ∧
      ∀ p ∈ [5, 5, 5].zip results, 0 < p.1 → p.2 = 0 → st.out.length = (memUpTo 20).envLen :=
  ⟨by decide, environ_reads (memUpTo 20) (by decide)
    (memUpTo_open le_rfl (Or.inr ⟨rfl, by decide⟩)) [5, 5, 5] (by decide)⟩

theorem environTold_append {limit : ℕ} (bs : List ℕ) : ∀ (as : List ℕ) (pos : ℕ), pos ≤ limit →
    environTold env limit pos (as ++ bs) = environTold env limit pos as ++
      environTold env limit (pos + min as.sum (limit - pos)) bs := by
  intro as
  induction as with
  | nil =>
    intro pos _
    rw [List.sum_nil, Nat.zero_min, add_zero]
    rfl
  | cons a as ih =>
    intro pos hpos
    have hnext : pos + min a (limit - pos) +
        min as.sum (limit - (pos + min a (limit - pos))) =
          pos + min (a :: as).sum (limit - pos) := by
      rw [List.sum_cons]
      omega
    rw [List.cons_append, environTold, ih _ (by omega), environTold, hnext, List.cons_append]

/-- Calls that stay in what is mapped are told what they have asked for. -/
theorem environTold_of_le {limit : ℕ} : ∀ (counts : List ℕ) (pos : ℕ), pos + counts.sum ≤ limit →
    environTold env limit pos counts = counts.map fun n : ℕ => (n : ℤ) := by
  intro counts
  induction counts with
  | nil => intro pos _; rfl
  | cons count counts ih =>
    intro pos hle
    rw [List.sum_cons] at hle
    rw [environTold, environTells, if_neg (by omega), Nat.min_eq_left (by omega),
      ih _ (by omega), List.map_cons]

/-- Calls at the end of what is mapped are told of nothing. -/
theorem environTold_limit {limit : ℕ} (counts : List ℕ) :
    environTold env limit limit counts = List.replicate counts.length 0 := by
  induction counts with
  | nil => rfl
  | cons count counts ih =>
    have hnone : environTells env limit limit count = 0 := by
      rw [environTells, Nat.sub_self, Nat.min_zero]
      split <;> rfl
    rw [environTold, hnone, Nat.sub_self, Nat.min_zero, add_zero, ih, List.length_cons,
      List.replicate_succ]

/-- **What `environ` loses**: if only its first `limit` bytes are mapped, the call that
runs into the rest has delivered what was left before it and moved the offset, and says
that there was nothing, as do all calls after it.  A reader who goes by the results holds
`before.sum` bytes of the `limit` that he was given. -/
theorem environ_loses (env : MemEnv) (hlen : env.envLen < 2 ^ 31) {limit : ℕ}
    (hlimit : limit < env.envLen) (h : Open env limit) (before : List ℕ) (count : ℕ)
    (after : List ℕ) (hcounts : ∀ n ∈ before ++ count :: after, n < 2 ^ 31)
    (hbefore : before.sum ≤ limit) (hcount : limit < before.sum + count) :
    ∃ st, readAll (environRead env) (before ++ count :: after) ⟨0, 0, []⟩ =
        some (before.map (fun n : ℕ => (n : ℤ)) ++ List.replicate (after.length + 1) 0, st) ∧
      st.ppos = limit ∧ Image env 0 st.clock env.envStart limit st.out := by
  have hstart := env.envStart_le
  have hend := env.envEnd_lt
  obtain ⟨st, hall, hdelivered⟩ :=
    readAll_open hlen h (before ++ count :: after) 0 ⟨0, 0, []⟩ hcounts (Nat.zero_le _) rfl
  have hn : min (before ++ count :: after).sum (limit - 0) = limit := by
    rw [List.sum_append, List.sum_cons]
    omega
  have htells : environTells env limit before.sum count = 0 := if_pos ⟨hlimit, by omega⟩
  rw [hn] at hdelivered
  refine ⟨st, ?_, ?_, ?_⟩
  · rw [hall, environTold_append _ _ _ (Nat.zero_le _), environTold_of_le _ _ (by omega), zero_add,
      Nat.sub_zero, Nat.min_eq_left hbefore, environTold, htells, Nat.min_eq_right (by omega),
      Nat.add_sub_cancel' hbefore, environTold_limit, List.replicate_succ]
  · rw [hdelivered.ppos, zero_add, u32_of_lt (by omega)]
  · obtain ⟨bytes, hbytes, himage⟩ := hdelivered.out
    dsimp only at himage
    rw [add_zero, u32_of_lt (by omega)] at himage
    rw [hbytes, List.nil_append]
    exact himage

/-- Of six bytes that are mapped, five are told of. -/
theorem environ_loses_one : 6 < (memUpTo 10).envLen ∧ [5].sum ≤ 6 ∧ 6 < [5].sum + 5 ∧
    ∃ st, readAll (environRead (memUpTo 10)) ([5] ++ 5 :: [5]) ⟨0, 0, []⟩ =
        some ([5].map (fun n : ℕ => (n : ℤ)) ++ List.replicate ([5].length + 1) 0, st) ∧
      st.ppos = (6 : ℕ) ∧ Image (memUpTo 10) 0 st.clock (memUpTo 10).envStart 6 st.out :=
  ⟨by decide, by decide, by decide, environ_loses (memUpTo 10) (by decide) (by decide)
    (memUpTo_open (show 6 ≤ 8 by omega) (Or.inl rfl)) [5] 5 [5] (by decide) (by decide) (by decide)⟩

end Proc
end KernelStudy
