import KernelStudy.Chardev.Sessions

/-!
# Reads into a bad buffer

`device_read` drops the result of `put_user`.  The cursor, the count and the
buffer pointer move on whether or not the byte arrived, so what a read reports
and what it delivers differ as soon as one of the bytes it tries to store faults.

## Main definitions

* `AtCursor d k ptr` — the state of a session: message `k` is in the buffer and
  the cursor stands `ptr` bytes into it.
* `Delivers`, `ReadsFaithfully` — a read delivers what it reports.

## Main results

* `atCursor_open`, `atCursor_read` — these are the states of a session, whatever
  buffers its reads were given.
* `readsFaithfully_iff` — **the buffers for which a read delivers what it
  reports.**
-/

namespace KernelStudy
namespace Chardev

/-! ### The states of a session -/

/-- The device in a session: message `k` is in the buffer, and the cursor stands
`ptr` bytes into it. -/
structure AtCursor (d : Device) (k : BitVec 32) (ptr : ℕ) : Prop where
  holds : Holds d.msg (message k)
  cursor : d.msgPtr = some ptr
  le : ptr ≤ (message k).length

variable {p : ProtMap} {m : Mem} {d : Device} {k : BitVec 32} {ptr : ℕ} {buffer : Addr}
  {length : ℕ}

/-- The bytes a read tries to store. -/
def nextBytes (k : BitVec 32) (ptr length : ℕ) : List UInt8 := ((message k).drop ptr).take length

theorem length_nextBytes (k : BitVec 32) (ptr length : ℕ) :
    (nextBytes k ptr length).length = min length ((message k).length - ptr) := by
  simp [nextBytes]

theorem length_nextBytes_lt (k : BitVec 32) (ptr length : ℕ) :
    (nextBytes k ptr length).length < bufLen := by
  have := length_message_lt k
  rw [length_nextBytes]
  omega

/-- The count of a read is that of the bytes tried, so taking so many bytes takes
just these. -/
theorem take_length_nextBytes (k : BitVec 32) (ptr length : ℕ) :
    ((message k).drop ptr).take (nextBytes k ptr length).length = nextBytes k ptr length := by
  have hlen := length_nextBytes k ptr length
  unfold nextBytes at hlen ⊢
  rw [List.take_eq_take_iff, List.length_drop]
  omega

/-- A read in a session, whatever the buffer. -/
theorem AtCursor.deviceRead_eq (hS : AtCursor d k ptr) (p : ProtMap) (m : Mem) (buffer : Addr)
    (length : ℕ) :
    deviceRead p m d buffer length =
      some (((nextBytes k ptr length).length : ℤ), putBytes p m buffer (nextBytes k ptr length),
        { d with msgPtr := some (ptr + (nextBytes k ptr length).length) }) :=
  Chardev.deviceRead_eq hS.holds (fun _ => ne_zero_of_mem_message) hS.cursor hS.le m buffer length

/-- A successful open starts a session at the beginning of its message. -/
theorem atCursor_open (hfree : d.deviceOpen = 0) : AtCursor (deviceOpen d).2 d.counter 0 := by
  have hopen : ¬ d.deviceOpen ≠ 0 := not_not.mpr hfree
  rw [deviceOpen, if_neg hopen]
  exact ⟨holds_sprintf _ _, rfl, Nat.zero_le _⟩

/-- A read leaves a session in a state of the session, whatever the buffer. -/
theorem atCursor_read (hS : AtCursor d k ptr) {ret : ℤ} {m' : Mem} {d' : Device}
    (hret : deviceRead p m d buffer length = some (ret, m', d')) :
    ∃ ptr', ptr ≤ ptr' ∧ AtCursor d' k ptr' := by
  have hle := hS.le
  have hlen := length_nextBytes k ptr length
  rw [hS.deviceRead_eq, Option.some.injEq, Prod.mk.injEq, Prod.mk.injEq] at hret
  obtain ⟨-, -, rfl⟩ := hret
  exact ⟨_, Nat.le_add_right _ _, hS.holds, rfl, by omega⟩

/-! ### What a read delivers -/

/-- A read that returns `n ≥ 0` has stored the next `n` bytes of the message in
the first `n` bytes of the buffer, all of which can be written, and nothing anywhere
else; it has moved the cursor by `n`; and the bytes that cannot be stored are still
before the cursor, so that a later read may bring them. -/
structure Delivers (p : ProtMap) (m : Mem) (d : Device) (k : BitVec 32) (ptr : ℕ)
    (buffer : Addr) (length n : ℕ) (m' : Mem) (d' : Device) : Prop where
  stored : ∀ i < n, Writable p (buffer + BitVec.ofNat 32 i)
  bytes_eq : bufferBytes m' buffer n = ((message k).drop ptr).take n
  outside : ∀ x, ¬ InWindow buffer n x → m' x = m x
  cursor : d' = { d with msgPtr := some (ptr + n) }
  remain : ∀ i < length, ptr + i < (message k).length →
    ¬ Writable p (buffer + BitVec.ofNat 32 i) → ptr + n ≤ ptr + i

/-- A read delivers what it reports. -/
def ReadsFaithfully (p : ProtMap) (m : Mem) (d : Device) (k : BitVec 32) (ptr : ℕ)
    (buffer : Addr) (length : ℕ) : Prop :=
  ∀ ret m' d', deviceRead p m d buffer length = some (ret, m', d') → 0 ≤ ret →
    Delivers p m d k ptr buffer length ret.toNat m' d'

/-- **A read in a session delivers what it reports exactly when each byte it
stores can be written.**  A byte that faults is counted all the same, and no later
read brings it back. -/
theorem readsFaithfully_iff (hS : AtCursor d k ptr) :
    ReadsFaithfully p m d k ptr buffer length ↔
      ∀ i < length, ptr + i < (message k).length →
        Writable p (buffer + BitVec.ofNat 32 i) := by
  have hlt := length_nextBytes_lt k ptr length
  have hlen := length_nextBytes k ptr length
  have hsize : (nextBytes k ptr length).length ≤ 2 ^ 32 := by
    unfold bufLen at hlt
    omega
  constructor
  · intro hread i hi h
    have hfaith := hread _ _ _ (hS.deviceRead_eq p m buffer length) (Int.natCast_nonneg _)
    rw [Int.toNat_natCast] at hfaith
    exact hfaith.stored i (by omega)
  · intro hw ret m' d' hret _
    rw [hS.deviceRead_eq, Option.some.injEq, Prod.mk.injEq, Prod.mk.injEq] at hret
    obtain ⟨rfl, rfl, rfl⟩ := hret
    rw [Int.toNat_natCast]
    have hstored : ∀ i < (nextBytes k ptr length).length,
        Writable p (buffer + BitVec.ofNat 32 i) := fun i hi => hw i (by omega) (by omega)
    refine ⟨hstored, ?_, ?_, rfl, fun i hi h hnot => absurd (hw i hi h) hnot⟩
    · rw [take_length_nextBytes]
      exact (map_putBytes_eq_iff p m buffer hsize).mpr fun i hi => Or.inl (hstored i hi)
    · intro x hx
      exact putBytes_of_not_inWindow p hsize hx

/-- The device after its first open. -/
def firstOpen : Device := (deviceOpen init.dev).2

theorem atCursor_firstOpen : AtCursor firstOpen 0#32 0 := atCursor_open rfl

/-- With a writable buffer the first read is faithful. -/
theorem writable_buffer_faithful :
    ReadsFaithfully (fun _ => .writable) (fun _ => 0) firstOpen 0#32 0 0x1000#32 16 := by
  refine (readsFaithfully_iff atCursor_firstOpen).mpr ?_
  intro i hi _
  refine ⟨?_, rfl⟩
  unfold taskSize
  bv_omega

/-- A read of two bytes into the last byte of a page with nothing behind it
reports two and loses the second. -/
theorem straddling_read_loses_byte :
    ¬ ∀ (p : ProtMap) (m : Mem) (d : Device) (k : BitVec 32) (ptr : ℕ) (buffer : Addr)
      (length : ℕ), AtCursor d k ptr → ReadsFaithfully p m d k ptr buffer length := by
  intro h
  let p : ProtMap := fun a => if a < 0x2000#32 then .writable else .unmapped
  have hread : (deviceRead p (fun _ => 0) firstOpen 0x1FFF#32 2).map
      (fun r => (r.1, bufferBytes r.2.1 0x1FFF#32 2)) = some (2, [0x49, 0]) := by
    decide +kernel
  obtain ⟨⟨ret, m', d'⟩, hret, heq⟩ := Option.map_eq_some_iff.mp hread
  rw [Prod.mk.injEq] at heq
  obtain ⟨rfl, hbytes⟩ := heq
  have hfaith := (h p _ _ _ _ _ _ atCursor_firstOpen _ _ _ hret (by decide)).bytes_eq
  change bufferBytes m' 0x1FFF#32 2 = ((message 0#32).drop 0).take 2 at hfaith
  have hne : ((message 0#32).drop 0).take 2 ≠ [0x49, 0] := by decide +kernel
  exact hne (hfaith.symm.trans hbytes)

end Chardev
end KernelStudy
