import Mathlib.Data.BitVec
import Mathlib.Logic.Function.Basic
import Mathlib.Tactic

/-!
# User memory behind a protection map

A 32-bit user address space as kernel code sees it: one byte at every address,
and a protection map that says which of them may be read and written.  The
accessors are the two the kernel offers for single bytes.  A faulting read
leaves zero in its target, a faulting write changes nothing, and addresses from
`taskSize` up always fault, so that no string runs around the end of the
address space.

## Main definitions

* `getUser`, `putUser` — the one-byte accessors.
* `getBytes`, `putBytes` — the loops over consecutive bytes.
* `InWindow a n x` — `x` is one of the `n` bytes from `a` on, modulo `2 ^ 32`.
* `StringAt p m a s` — `s` is the NUL-terminated string at `a`.
* `applyWrites`, `lastWrite` — a batch of writes and the byte it leaves.

## Main results

* `putBytes_apply` — what a store loop leaves at an address.
* `stringAt_congr` — a string depends only on the memory from its start up.
* `stringAt_append`, `append_of_stringAt` — strings split at any position.
-/

namespace KernelStudy

/-- A 32-bit address. -/
abbrev Addr := BitVec 32

/-- What a byte of user memory allows.  On this architecture a writable byte
can also be read. -/
inductive Prot where
  | unmapped
  | readOnly
  | writable
  deriving DecidableEq, Repr

/-- The protection of every byte of the address space. -/
abbrev ProtMap := Addr → Prot

/-- The contents of user memory. -/
abbrev Mem := Addr → UInt8

/-- `TASK_SIZE`: the accessors refuse addresses from here up. -/
def taskSize : Addr := 0xC0000000#32

/-- A read of this byte does not fault. -/
def Readable (p : ProtMap) (a : Addr) : Prop := a < taskSize ∧ p a ≠ .unmapped

/-- A write to this byte does not fault. -/
def Writable (p : ProtMap) (a : Addr) : Prop := a < taskSize ∧ p a = .writable

instance (p : ProtMap) (a : Addr) : Decidable (Readable p a) :=
  inferInstanceAs (Decidable (_ ∧ _))

instance (p : ProtMap) (a : Addr) : Decidable (Writable p a) :=
  inferInstanceAs (Decidable (_ ∧ _))

theorem Writable.readable {p : ProtMap} {a : Addr} (h : Writable p a) : Readable p a := by
  refine ⟨h.1, ?_⟩
  rw [h.2]
  decide

/-- An address below `taskSize` has a successor that does not wrap. -/
theorem Readable.toNat_add_one {p : ProtMap} {a : Addr} (h : Readable p a) :
    (a + 1#32).toNat = a.toNat + 1 := by
  have hlt := h.1
  unfold taskSize at hlt
  bv_omega

/-! ### One byte -/

/-- The value `get_user` leaves in its target: the byte, or zero on a fault. -/
def getUser (p : ProtMap) (m : Mem) (a : Addr) : UInt8 :=
  if Readable p a then m a else 0

/-- The memory after `put_user`: unchanged on a fault. -/
def putUser (p : ProtMap) (m : Mem) (a : Addr) (b : UInt8) : Mem :=
  if Writable p a then Function.update m a b else m

@[simp] theorem getUser_of_readable {p : ProtMap} {m : Mem} {a : Addr} (h : Readable p a) :
    getUser p m a = m a := if_pos h

theorem getUser_of_not_readable {p : ProtMap} {m : Mem} {a : Addr} (h : ¬ Readable p a) :
    getUser p m a = 0 := if_neg h

theorem putUser_apply (p : ProtMap) (m : Mem) (a : Addr) (b : UInt8) (x : Addr) :
    putUser p m a b x = if x = a ∧ Writable p x then b else m x := by
  unfold putUser
  by_cases hw : Writable p a
  · rw [if_pos hw]
    by_cases hx : x = a
    · subst hx
      simp [hw]
    · simp [hx]
  · rw [if_neg hw, if_neg]
    rintro ⟨rfl, h⟩
    exact hw h

/-- A nonzero value can only come from a readable byte. -/
theorem getUser_eq_iff {p : ProtMap} {m : Mem} {a : Addr} {c : UInt8} (hc : c ≠ 0) :
    getUser p m a = c ↔ Readable p a ∧ m a = c := by
  by_cases hr : Readable p a
  · simp [hr]
  · simp [getUser_of_not_readable hr, hr, Ne.symm hc]

/-! ### Consecutive bytes -/

/-- The bytes a loop of `get_user` collects from `a` on. -/
def getBytes (p : ProtMap) (m : Mem) (a : Addr) (n : ℕ) : List UInt8 :=
  (List.range n).map fun i => getUser p m (a + BitVec.ofNat 32 i)

/-- The memory after a loop of `put_user` over the bytes from `a` on. -/
def putBytes (p : ProtMap) : Mem → Addr → List UInt8 → Mem
  | m, _, [] => m
  | m, a, b :: bs => putBytes p (putUser p m a b) (a + 1#32) bs

@[simp] theorem length_getBytes (p : ProtMap) (m : Mem) (a : Addr) (n : ℕ) :
    (getBytes p m a n).length = n := by simp [getBytes]

/-- The first bytes a loop collects are a given text. -/
theorem take_getBytes_eq_iff {p : ProtMap} {m : Mem} {a : Addr} {n : ℕ} {bs : List UInt8}
    (hlen : bs.length ≤ n) :
    (getBytes p m a n).take bs.length = bs ↔
      ∀ i (h : i < bs.length), getUser p m (a + BitVec.ofNat 32 i) = bs[i] := by
  constructor
  · intro heq i hi
    have hget : ((getBytes p m a n).take bs.length)[i]? = bs[i]? := by rw [heq]
    simpa [getBytes, hi, show i < n by omega] using hget
  · intro h
    refine List.ext_getElem (by simpa using hlen) ?_
    intro i hi₁ hi₂
    simpa [getBytes] using h i hi₂

/-- `x` is one of the `n` bytes from `a` on. -/
def InWindow (a : Addr) (n : ℕ) (x : Addr) : Prop := (x - a).toNat < n

instance (a : Addr) (n : ℕ) (x : Addr) : Decidable (InWindow a n x) :=
  inferInstanceAs (Decidable (_ < _))

theorem toNat_add_ofNat_sub {a : Addr} {i : ℕ} (hi : i < 2 ^ 32) :
    (a + BitVec.ofNat 32 i - a).toNat = i := by bv_omega

/-- **What a store loop leaves at an address**: the byte meant for it where the
address can be written, and what was there everywhere else. -/
theorem putBytes_apply (p : ProtMap) : ∀ (bs : List UInt8) (m : Mem) (a x : Addr),
    bs.length ≤ 2 ^ 32 →
      putBytes p m a bs x = if Writable p x then bs[(x - a).toNat]?.getD (m x) else m x := by
  intro bs
  induction bs with
  | nil => intro m a x _; simp [putBytes]
  | cons b bs ih =>
    intro m a x hlen
    rw [List.length_cons] at hlen
    rw [putBytes, ih _ _ _ (by omega), putUser_apply]
    by_cases hw : Writable p x
    · by_cases hx : x = a
      · subst hx
        have hnone : bs[(x - (x + 1#32)).toNat]? = none := by
          rw [List.getElem?_eq_none_iff]
          bv_omega
        rw [if_pos hw, hnone]
        simp [hw]
      · have hoff : (x - a).toNat = (x - (a + 1#32)).toNat + 1 := by bv_omega
        simp [hw, hx, hoff]
    · simp [hw]

/-- A store loop touches nothing outside its window. -/
theorem putBytes_of_not_inWindow (p : ProtMap) {bs : List UInt8} {m : Mem} {a x : Addr}
    (hlen : bs.length ≤ 2 ^ 32) (hx : ¬ InWindow a bs.length x) :
    putBytes p m a bs x = m x := by
  have hnone : bs[(x - a).toNat]? = none := by
    rw [List.getElem?_eq_none_iff]
    exact Nat.le_of_not_lt hx
  rw [putBytes_apply p bs m a x hlen, hnone]
  simp

/-- A buffer holds what was stored in it exactly when each of its bytes can be
written, or was right before. -/
theorem map_putBytes_eq_iff (p : ProtMap) (m : Mem) (a : Addr) {bs : List UInt8}
    (hlen : bs.length ≤ 2 ^ 32) :
    (List.range bs.length).map (fun i => putBytes p m a bs (a + BitVec.ofNat 32 i)) = bs ↔
      ∀ i (h : i < bs.length), Writable p (a + BitVec.ofNat 32 i) ∨
        m (a + BitVec.ofNat 32 i) = bs[i] := by
  have hput : ∀ i (h : i < bs.length), putBytes p m a bs (a + BitVec.ofNat 32 i) =
      if Writable p (a + BitVec.ofNat 32 i) then bs[i] else m (a + BitVec.ofNat 32 i) := by
    intro i hi
    have hoff : (a + BitVec.ofNat 32 i - a).toNat = i := toNat_add_ofNat_sub (by omega)
    rw [putBytes_apply p _ _ _ _ hlen, hoff, List.getElem?_eq_getElem hi]
    rfl
  constructor
  · intro heq i hi
    have hget : ((List.range bs.length).map
        fun i => putBytes p m a bs (a + BitVec.ofNat 32 i))[i]? = bs[i]? := by rw [heq]
    rw [List.getElem?_map, List.getElem?_range hi, Option.map_some, List.getElem?_eq_getElem hi,
      Option.some.injEq, hput i hi] at hget
    by_cases hw : Writable p (a + BitVec.ofNat 32 i)
    · exact Or.inl hw
    · rw [if_neg hw] at hget
      exact Or.inr hget
  · intro h
    apply List.ext_getElem (by simp)
    intro i hi₁ hi₂
    rw [List.getElem_map, List.getElem_range, hput i hi₂]
    split
    · rfl
    · next hw => exact (h i hi₂).resolve_left hw

/-! ### Strings -/

/-- `s` is the NUL-terminated string at `a`: its bytes and the terminator are
readable, and none of the bytes is zero. -/
def StringAt (p : ProtMap) (m : Mem) : Addr → List UInt8 → Prop
  | a, [] => Readable p a ∧ m a = 0
  | a, c :: cs => Readable p a ∧ m a = c ∧ c ≠ 0 ∧ StringAt p m (a + 1#32) cs

instance (p : ProtMap) (m : Mem) : ∀ (a : Addr) (s : List UInt8), Decidable (StringAt p m a s)
  | _, [] => inferInstanceAs (Decidable (_ ∧ _))
  | a, _ :: cs =>
    have := instDecidableStringAt p m (a + 1#32) cs
    inferInstanceAs (Decidable (_ ∧ _ ∧ _ ∧ _))

/-- A string depends only on the memory from its start up: nothing readable
lies past the wrap. -/
theorem stringAt_congr {p : ProtMap} {m m' : Mem} : ∀ (s : List UInt8) (a : Addr),
    (∀ x, a.toNat ≤ x.toNat → Readable p x → m' x = m x) →
      (StringAt p m' a s ↔ StringAt p m a s) := by
  intro s
  induction s with
  | nil =>
    intro a h
    simp only [StringAt]
    refine and_congr_right fun hr => ?_
    rw [h a le_rfl hr]
  | cons c cs ih =>
    intro a h
    simp only [StringAt]
    refine and_congr_right fun hr => ?_
    rw [h a le_rfl hr, ih (a + 1#32)]
    intro x hx hxr
    rw [hr.toNat_add_one] at hx
    exact h x (by omega) hxr

/-- There is at most one string at an address. -/
theorem stringAt_unique {p : ProtMap} {m : Mem} : ∀ (s t : List UInt8) (a : Addr),
    StringAt p m a s → StringAt p m a t → s = t := by
  intro s
  induction s with
  | nil =>
    intro t a hs ht
    cases t with
    | nil => rfl
    | cons d ds => exact absurd (ht.2.1.symm.trans hs.2) ht.2.2.1
  | cons c cs ih =>
    intro t a hs ht
    cases t with
    | nil => exact absurd (hs.2.1.symm.trans ht.2) hs.2.2.1
    | cons d ds => rw [← hs.2.1, ← ht.2.1, ih ds (a + 1#32) hs.2.2.2 ht.2.2.2]

theorem add_ofNat_succ (a : Addr) (i : ℕ) :
    a + BitVec.ofNat 32 (i + 1) = a + 1#32 + BitVec.ofNat 32 i := by
  rw [BitVec.ofNat_add, BitVec.add_comm (BitVec.ofNat 32 i), BitVec.add_assoc]

/-- A string splits after any of its initial segments. -/
theorem stringAt_append {p : ProtMap} {m : Mem} : ∀ (u s : List UInt8) (a : Addr),
    StringAt p m a (u ++ s) ↔
      (∀ i (h : i < u.length), Readable p (a + BitVec.ofNat 32 i) ∧
        m (a + BitVec.ofNat 32 i) = u[i] ∧ u[i] ≠ 0) ∧
      StringAt p m (a + BitVec.ofNat 32 u.length) s := by
  intro u
  induction u with
  | nil => intro s a; simp
  | cons c cs ih =>
    intro s a
    rw [List.cons_append, StringAt, ih s (a + 1#32)]
    constructor
    · rintro ⟨hr, hc, hne, hcs, hs⟩
      refine ⟨?_, by rw [List.length_cons, add_ofNat_succ]; exact hs⟩
      intro i hi
      cases i with
      | zero => simpa using ⟨hr, hc, hne⟩
      | succ i =>
        rw [add_ofNat_succ]
        simpa using hcs i (by simpa using hi)
    · rintro ⟨hcs, hs⟩
      have h0 := hcs 0 (by simp)
      refine ⟨by simpa using h0.1, by simpa using h0.2.1, by simpa using h0.2.2, ?_, ?_⟩
      · intro i hi
        have := hcs (i + 1) (by simpa using hi)
        rw [add_ofNat_succ] at this
        simpa using this
      · rw [List.length_cons, add_ofNat_succ] at hs
        exact hs

/-- If the bytes from `a` on are known not to be NUL, the string there starts
with them. -/
theorem append_of_stringAt {p : ProtMap} {m : Mem} : ∀ (u s : List UInt8) (a : Addr),
    (∀ i (h : i < u.length), m (a + BitVec.ofNat 32 i) = u[i] ∧ u[i] ≠ 0) →
      StringAt p m a s → ∃ t, s = u ++ t := by
  intro u
  induction u with
  | nil => intro s a _ _; exact ⟨s, rfl⟩
  | cons c cs ih =>
    intro s a h hs
    have h0 := h 0 (by simp)
    simp only [BitVec.add_zero, List.getElem_cons_zero] at h0
    cases s with
    | nil => exact absurd (h0.1.symm.trans hs.2) h0.2
    | cons d ds =>
      obtain ⟨t, rfl⟩ := ih ds (a + 1#32) (by
        intro i hi
        have := h (i + 1) (by simpa using hi)
        rw [add_ofNat_succ] at this
        simpa using this) hs.2.2.2
      exact ⟨t, by rw [← hs.2.1, ← h0.1, List.cons_append]⟩

/-- A memory that holds a text at one address and zeros everywhere else. -/
def textAt (a : Addr) (s : List UInt8) : Mem := fun x => s.getD (x - a).toNat 0

/-! ### Writes by the kernel -/

/-- The memory after a list of byte writes that do not fault. -/
def applyWrites (m : Mem) (ws : List (Addr × UInt8)) : Mem :=
  ws.foldl (fun m w => Function.update m w.1 w.2) m

/-- The byte a list of writes leaves at an address, if it writes there. -/
def lastWrite : List (Addr × UInt8) → Addr → Option UInt8
  | [], _ => none
  | w :: ws, x => (lastWrite ws x).or (if x = w.1 then some w.2 else none)

theorem applyWrites_apply : ∀ (ws : List (Addr × UInt8)) (m : Mem) (x : Addr),
    applyWrites m ws x = (lastWrite ws x).getD (m x) := by
  intro ws
  induction ws with
  | nil => intro m x; rfl
  | cons w ws ih =>
    intro m x
    change applyWrites (Function.update m w.1 w.2) ws x = _
    rw [ih, lastWrite]
    by_cases hx : x = w.1
    · subst hx
      cases lastWrite ws w.1 <;> simp
    · cases lastWrite ws x <;> simp [hx]

end KernelStudy
