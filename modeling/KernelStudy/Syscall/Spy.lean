import KernelStudy.Lib.Text
import KernelStudy.Lib.UserSpace

/-!
# Spying on `open`

The function that `syscall.c` and `kmap.c` put in the place of `open` prints the
name of the file, byte by byte, if the caller is the user it was told to watch,
and then calls the function it has displaced.  The loop has no bound and does not
look at the result of `get_user`.  It ends because a fault leaves zero in the
character, and addresses from `taskSize` up always fault.

The text is the same in both modules but for the line printed in front of the
name, and for where the kernel of the time keeps the user id of the caller.

## Main definitions

* `Spy.ourSysOpen` — the code of both modules; `Syscall.ourSysOpen` and
  `Kmap.ourSysOpen` are the two.
* `Spied p m f s` — `s` is what can be read at `f`, up to a NUL or a fault.
* `Transparent` — what a call of the spy amounts to.

## Main results

* `logLoop_spec` — the loop ends and prints what can be read.
* `spy_transparent` — **both functions end, print the name, and are otherwise
  the call they have displaced.**
-/

namespace KernelStudy
namespace Spy

/-! ### The code both modules share -/

/-- What one `printk` prints. -/
inductive Printk where
  /-- A line of the module. -/
  | text (s : List UInt8)
  /-- The character of a `"%c"`. -/
  | char (c : UInt8)
  deriving DecidableEq, Repr

/-- A call of `original_call`, with the user memory it finds. -/
structure Invocation where
  /-- The address of the name. -/
  filename : Addr
  /-- The flags. -/
  flags : BitVec 32
  /-- The mode. -/
  mode : BitVec 32
  /-- User memory at the call. -/
  mem : Mem

/-- The machine around the spy; `σ` is all the rest of the kernel. -/
structure Machine (σ : Type*) where
  /-- User memory. -/
  mem : Mem
  /-- The kernel log. -/
  log : List Printk
  /-- The calls of `original_call` so far. -/
  calls : List Invocation
  /-- The rest of the kernel. -/
  inner : σ

variable {σ : Type*}

/-- The call of `original_call`, which may do anything to user memory and to the
rest of the kernel. -/
def callOriginal (originalCall : Invocation → σ → ℤ × Mem × σ) (filename : Addr)
    (flags mode : BitVec 32) (k : Machine σ) : ℤ × Machine σ :=
  let call : Invocation := ⟨filename, flags, mode, k.mem⟩
  let r := originalCall call k.inner
  (r.1, { k with mem := r.2.1, calls := k.calls ++ [call], inner := r.2.2 })

/-- The loop that prints the name, from index `i` on: its characters.  The index
is a C `int`, and the address is computed modulo `2 ^ 32`. -/
def logLoop (p : ProtMap) (m : Mem) (filename : Addr) : ℕ → BitVec 32 → Option (List UInt8)
  | 0, _ => none
  | fuel + 1, i =>
      let ch := getUser p m (filename + i)
      if ch ≠ 0 then (logLoop p m filename fuel (i + 1#32)).map (ch :: ·) else some [ch]

/-- `our_sys_open`, with the line in front of the name as a parameter.  The test
compares an `int` with an unsigned user id, hence their bits. -/
def ourSysOpen (banner : BitVec 32 → List UInt8) (p : ProtMap)
    (originalCall : Invocation → σ → ℤ × Mem × σ) (uid currentUid : BitVec 32) (fuel : ℕ)
    (filename : Addr) (flags mode : BitVec 32) (k : Machine σ) : Option (ℤ × Machine σ) :=
  if uid = currentUid then
    (logLoop p k.mem filename fuel 0#32).map fun chars =>
      callOriginal originalCall filename flags mode
        { k with log :=
            k.log ++ [.text (banner uid)] ++ chars.map .char ++ [.text (bytes "\n")] }
  else some (callOriginal originalCall filename flags mode k)

end Spy

/-! ### The two modules -/

/-- The line that `syscall.c` prints in front of the name. -/
def Syscall.banner (uid : BitVec 32) : List UInt8 :=
  bytes "1: Opened file by " ++ intText uid.toInt ++ bytes ": "

/-- The line that `kmap.c` prints; `"<6>"` is `KERN_INFO`. -/
def Kmap.banner (uid : BitVec 32) : List UInt8 :=
  bytes "<6>" ++ bytes "Opened file by " ++ intText uid.toInt ++ bytes ": "

/-- `our_sys_open` of `syscall.c`. -/
def Syscall.ourSysOpen {σ : Type*} : ProtMap → (Spy.Invocation → σ → ℤ × Mem × σ) → BitVec 32 →
    BitVec 32 → ℕ → Addr → BitVec 32 → BitVec 32 → Spy.Machine σ → Option (ℤ × Spy.Machine σ) :=
  Spy.ourSysOpen Syscall.banner

/-- `our_sys_open` of `kmap.c`. -/
def Kmap.ourSysOpen {σ : Type*} : ProtMap → (Spy.Invocation → σ → ℤ × Mem × σ) → BitVec 32 →
    BitVec 32 → ℕ → Addr → BitVec 32 → BitVec 32 → Spy.Machine σ → Option (ℤ × Spy.Machine σ) :=
  Spy.ourSysOpen Kmap.banner

namespace Spy

/-! ### What is printed -/

variable {p : ProtMap} {m : Mem}

/-- `s` is what can be read from `f` on, up to a NUL or a fault. -/
structure Spied (p : ProtMap) (m : Mem) (f : Addr) (s : List UInt8) : Prop where
  /-- The bytes can be read and are not NUL. -/
  get : ∀ i (h : i < s.length), Readable p (f + BitVec.ofNat 32 i) ∧
    m (f + BitVec.ofNat 32 i) = s[i] ∧ s[i] ≠ 0
  /-- The next one is NUL or cannot be read. -/
  stop : ¬ Readable p (f + BitVec.ofNat 32 s.length) ∨ m (f + BitVec.ofNat 32 s.length) = 0

theorem spied_nil {f : Addr} (h : getUser p m f = 0) : Spied p m f [] where
  get := fun i hi => absurd hi (Nat.not_lt_zero i)
  stop := by
    rw [List.length_nil, BitVec.add_zero]
    by_cases hr : Readable p f
    · rw [getUser_of_readable hr] at h
      exact Or.inr h
    · exact Or.inl hr

theorem Spied.cons {f : Addr} {c : UInt8} {s : List UInt8} (hr : Readable p f) (hc : m f = c)
    (hne : c ≠ 0) (hs : Spied p m (f + 1#32) s) : Spied p m f (c :: s) where
  get := by
    intro i hi
    cases i with
    | zero =>
      rw [BitVec.add_zero]
      exact ⟨hr, hc, hne⟩
    | succ i =>
      rw [add_ofNat_succ]
      exact hs.get i (by simpa using hi)
  stop := by
    rw [List.length_cons, add_ofNat_succ]
    exact hs.stop

/-- What can be read at an address is determined. -/
theorem Spied.unique {f : Addr} {s t : List UInt8} (hs : Spied p m f s) (ht : Spied p m f t) :
    s = t := by
  have hle : ∀ {u v : List UInt8}, Spied p m f u → Spied p m f v → v.length ≤ u.length := by
    intro u v hu hv
    by_contra hlt
    obtain ⟨hr, hm, hne⟩ := hv.get u.length (by omega)
    rcases hu.stop with hstop | hstop
    · exact hstop hr
    · exact hne (hm.symm.trans hstop)
  apply List.ext_getElem (le_antisymm (hle ht hs) (hle hs ht))
  intro i hi hi'
  exact (hs.get i hi).2.1.symm.trans (ht.get i hi').2.1

/-- **The loop ends and prints what can be read, then one NUL.**  What is left of
the address space below `taskSize` bounds the passes. -/
theorem logLoop_spec (p : ProtMap) (m : Mem) (filename : Addr) : ∀ (fuel : ℕ) (i : BitVec 32),
    taskSize.toNat - (filename + i).toNat < fuel →
      ∃ s, Spied p m (filename + i) s ∧ logLoop p m filename fuel i = some (s ++ [0]) := by
  intro fuel
  induction fuel with
  | zero => intro i h; omega
  | succ fuel ih =>
    intro i hfuel
    rw [logLoop]
    by_cases hch : getUser p m (filename + i) = 0
    · rw [if_neg (not_not.mpr hch), hch]
      exact ⟨[], spied_nil hch, rfl⟩
    · -- a nonzero character was read below `taskSize`, and the next address is one higher
      obtain ⟨hr, hm⟩ := (getUser_eq_iff hch).mp rfl
      have hlt : (filename + i).toNat < taskSize.toNat := hr.1
      have hnext : filename + (i + 1#32) = filename + i + 1#32 := (BitVec.add_assoc _ _ _).symm
      have hstep := hr.toNat_add_one
      obtain ⟨s, hs, hloop⟩ := ih (i + 1#32) (by rw [hnext]; omega)
      rw [hnext] at hs
      rw [if_pos hch, hloop]
      exact ⟨_ :: s, hs.cons hr hm hch, rfl⟩

/-! ### Transparency -/

/-- The characters of the names in a log. -/
def chars : List Printk → List UInt8
  | [] => []
  | .text _ :: log => chars log
  | .char c :: log => c :: chars log

theorem chars_append : ∀ log log' : List Printk, chars (log ++ log') = chars log ++ chars log' := by
  intro log log'
  induction log with
  | nil => rfl
  | cons x log ih => cases x <;> simp [chars, ih]

theorem chars_map_char : ∀ s : List UInt8, chars (s.map .char) = s := by
  intro s
  induction s with
  | nil => rfl
  | cons c s ih => rw [List.map_cons, chars, ih]

/-- The outcome `(ret, k')` of a spied call from `k` is the call of the function
displaced, made once, with the arguments and the memory as they were; the log has
grown by the characters `s`. -/
structure Transparent (originalCall : Invocation → σ → ℤ × Mem × σ) (filename : Addr)
    (flags mode : BitVec 32) (s : List UInt8) (k : Machine σ) (ret : ℤ) (k' : Machine σ) :
    Prop where
  logged : chars k'.log = chars k.log ++ s
  called : k'.calls = k.calls ++ [⟨filename, flags, mode, k.mem⟩]
  result : (ret, k'.mem, k'.inner) = originalCall ⟨filename, flags, mode, k.mem⟩ k.inner

variable {originalCall : Invocation → σ → ℤ × Mem × σ} {filename : Addr} {flags mode : BitVec 32}

/-- Nothing but the log changes before the call. -/
theorem transparent_callOriginal {k : Machine σ} {log : List Printk} {s : List UInt8}
    (hlog : chars log = chars k.log ++ s) :
    Transparent originalCall filename flags mode s k
      (callOriginal originalCall filename flags mode { k with log := log }).1
      (callOriginal originalCall filename flags mode { k with log := log }).2 :=
  ⟨hlog, rfl, rfl⟩

/-- The code of both modules is transparent, whatever the line in front of the
name. -/
theorem ourSysOpen_spec (banner : BitVec 32 → List UInt8) {uid currentUid : BitVec 32}
    {k : Machine σ} {s : List UInt8} {fuel : ℕ}
    (hloop : logLoop p k.mem filename fuel 0#32 = some (s ++ [0])) :
    ∃ ret k', ourSysOpen banner p originalCall uid currentUid fuel filename flags mode k =
        some (ret, k') ∧
      Transparent originalCall filename flags mode
        (if uid = currentUid then s ++ [0] else []) k ret k' := by
  unfold ourSysOpen
  by_cases huid : uid = currentUid
  · rw [if_pos huid, hloop, if_pos huid]
    refine ⟨_, _, rfl, transparent_callOriginal ?_⟩
    simp only [chars_append, chars_map_char, chars, List.append_nil]
  · rw [if_neg huid, if_neg huid]
    exact ⟨_, _, rfl, transparent_callOriginal (List.append_nil _).symm⟩

/-- **The spy ends and is transparent on every pointer.**  With any fuel above
the size of the user address space both functions return; they print the same
characters, what can be read at the name and one NUL if the user ids agree and
none otherwise; and each makes the call it has displaced once, in the memory it
found, and returns its result. -/
theorem spy_transparent (p : ProtMap) (originalCall : Invocation → σ → ℤ × Mem × σ)
    (uid currentUid : BitVec 32) (filename : Addr) (flags mode : BitVec 32) (k : Machine σ) :
    ∃ s, Spied p k.mem filename s ∧ ∀ fuel, taskSize.toNat < fuel →
      ∃ ret k₁ k₂,
        Syscall.ourSysOpen p originalCall uid currentUid fuel filename flags mode k =
          some (ret, k₁) ∧
        Kmap.ourSysOpen p originalCall uid currentUid fuel filename flags mode k =
          some (ret, k₂) ∧
        (∀ k' ∈ [k₁, k₂], Transparent originalCall filename flags mode
          (if uid = currentUid then s ++ [0] else []) k ret k') := by
  have hloop : ∀ fuel, taskSize.toNat < fuel →
      ∃ s, Spied p k.mem filename s ∧ logLoop p k.mem filename fuel 0#32 = some (s ++ [0]) := by
    intro fuel hfuel
    have h := logLoop_spec p k.mem filename fuel 0#32 (by omega)
    rw [BitVec.add_zero] at h
    exact h
  obtain ⟨s, hs, -⟩ := hloop (taskSize.toNat + 1) (Nat.lt_succ_self _)
  refine ⟨s, hs, fun fuel hfuel => ?_⟩
  obtain ⟨s', hs', hlog⟩ := hloop fuel hfuel
  rw [hs'.unique hs] at hlog
  have hspec : ∀ banner, ∃ ret k',
      ourSysOpen banner p originalCall uid currentUid fuel filename flags mode k =
        some (ret, k') ∧
      Transparent originalCall filename flags mode
        (if uid = currentUid then s ++ [0] else []) k ret k' :=
    fun banner => ourSysOpen_spec banner hlog
  obtain ⟨ret₁, k₁, h₁, ht₁⟩ := hspec Syscall.banner
  obtain ⟨ret₂, k₂, h₂, ht₂⟩ := hspec Kmap.banner
  have hret : ret₂ = ret₁ := congrArg Prod.fst (ht₂.result.trans ht₁.result.symm)
  rw [hret] at h₂ ht₂
  refine ⟨ret₁, k₁, k₂, h₁, h₂, fun k' hk' => ?_⟩
  rcases List.mem_pair.mp hk' with rfl | rfl
  · exact ht₁
  · exact ht₂

/-- User memory full of the letter `a`, without a NUL anywhere. -/
def unterminated : Machine Unit := ⟨fun _ => 97, [], [], ()⟩

/-- A name without an end two bytes below `taskSize`: the two bytes are printed,
and the call is made. -/
theorem unterminated_name_spied :
    ∃ ret k', Syscall.ourSysOpen (fun _ => .readOnly) (fun call _ => (3, call.mem, ())) 0#32 0#32
        (2 ^ 32) 0xBFFFFFFE#32 0#32 0#32 unterminated = some (ret, k') ∧
      chars k'.log = [97, 97, 0] ∧ ret = 3 ∧ k'.mem = unterminated.mem := by
  have hspied : Spied (fun _ => .readOnly) unterminated.mem 0xBFFFFFFE#32 [97, 97] := by
    refine (spied_nil ?_).cons ?_ rfl ?_ |>.cons ?_ rfl ?_ <;> decide
  obtain ⟨s, hs, hcall⟩ := spy_transparent (fun _ => .readOnly)
    (fun call (_ : Unit) => (3, call.mem, ())) 0#32 0#32 0xBFFFFFFE#32 0#32 0#32 unterminated
  obtain ⟨ret, k₁, k₂, h₁, -, ht⟩ := hcall (2 ^ 32) (by decide)
  obtain ⟨hlog, -, hres⟩ := ht k₁ List.mem_cons_self
  rw [if_pos rfl, hs.unique hspied] at hlog
  rw [Prod.mk.injEq, Prod.mk.injEq] at hres
  exact ⟨ret, k₁, h₁, hlog, hres.1, hres.2.1⟩

end Spy
end KernelStudy
