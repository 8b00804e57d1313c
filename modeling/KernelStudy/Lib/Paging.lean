import KernelStudy.Lib.UserSpace

/-!
# Words in pages

Physical memory is a byte at every 32-bit address.  Kernel code reaches it in two
ways: through the direct map, which is a fixed offset, and through a page that
has been mapped a second time somewhere else.  A word is four bytes, the lowest
first; each of them is translated on its own, so that a word in the last bytes of
a page is read from that page only if it lies in it as a whole.

## Main definitions

* `word`, `putWord` — a word in physical memory.
* `DirectMap` — the direct map, with `virtToPage`.
* `Vm` — physical memory with at most one alias, and a record of the accesses.
* `Vm.load`, `Vm.store`, `Vm.vmap`, `Vm.vunmap` — the operations.

## Main results

* `word_eq_iff`, `putWord_eq_self_iff` — words and their bytes.
* `Vm.maps_alias` — **the alias of the page of an aligned address reaches the
  word at that address**, wherever it lies in its page.
* `Vm.maps_linear` — outside its window an alias changes nothing.
* `Vm.load_eq`, `Vm.store_eq` — accesses to a word that is mapped as a whole.
* `Vm.load_alias`, `Vm.store_alias` — accesses through an alias.
-/

namespace KernelStudy

/-! ### Words -/

/-- The contents of physical memory. -/
abbrev Phys := Addr → BitVec 8

/-- Byte `i` of a word. -/
def byteOf (w : BitVec 32) (i : ℕ) : BitVec 8 := BitVec.ofNat 8 (w.toNat / 2 ^ (8 * i))

/-- The word at an address. -/
def word (m : Phys) (a : Addr) : BitVec 32 :=
  BitVec.ofNat 32 ((m a).toNat + 2 ^ 8 * (m (a + 1#32)).toNat + 2 ^ 16 * (m (a + 2#32)).toNat +
    2 ^ 24 * (m (a + 3#32)).toNat)

/-- The memory after a word is stored. -/
def putWord (m : Phys) (a : Addr) (w : BitVec 32) : Phys :=
  fun x => if InWindow a 4 x then byteOf w (x - a).toNat else m x

theorem byteOf_word (m : Phys) (a : Addr) {i : ℕ} (hi : i < 4) :
    byteOf (word m a) i = m (a + BitVec.ofNat 32 i) := by
  have h₀ := (m a).isLt
  have h₁ := (m (a + 1#32)).isLt
  have h₂ := (m (a + 2#32)).isLt
  have h₃ := (m (a + 3#32)).isLt
  apply BitVec.eq_of_toNat_eq
  unfold byteOf word
  rw [BitVec.toNat_ofNat, BitVec.toNat_ofNat]
  interval_cases i
  · rw [BitVec.add_zero]
    omega
  all_goals omega

/-- A word is its four bytes. -/
theorem word_eq_iff {m : Phys} {a : Addr} {w : BitVec 32} :
    word m a = w ↔ ∀ i < 4, m (a + BitVec.ofNat 32 i) = byteOf w i := by
  constructor
  · rintro rfl i hi
    exact (byteOf_word m a hi).symm
  · intro h
    have h₀ := h 0 (by omega)
    rw [BitVec.add_zero] at h₀
    have hlt := w.isLt
    apply BitVec.eq_of_toNat_eq
    rw [word, h₀, h 1 (by omega), h 2 (by omega), h 3 (by omega)]
    simp only [byteOf, BitVec.toNat_ofNat]
    omega

theorem word_congr {m m' : Phys} {a : Addr}
    (h : ∀ i < 4, m' (a + BitVec.ofNat 32 i) = m (a + BitVec.ofNat 32 i)) :
    word m' a = word m a := by
  rw [word_eq_iff]
  intro i hi
  rw [h i hi, byteOf_word m a hi]

theorem putWord_of_not_inWindow {m : Phys} {a x : Addr} {w : BitVec 32} (hx : ¬ InWindow a 4 x) :
    putWord m a w x = m x := if_neg hx

theorem putWord_byte (m : Phys) (a : Addr) (w : BitVec 32) {i : ℕ} (hi : i < 4) :
    putWord m a w (a + BitVec.ofNat 32 i) = byteOf w i := by
  have hoff : (a + BitVec.ofNat 32 i - a).toNat = i := toNat_add_ofNat_sub (by omega)
  have hin : InWindow a 4 (a + BitVec.ofNat 32 i) := by
    change (a + BitVec.ofNat 32 i - a).toNat < 4
    omega
  rw [putWord, if_pos hin, hoff]

@[simp] theorem word_putWord (m : Phys) (a : Addr) (w : BitVec 32) :
    word (putWord m a w) a = w := by
  rw [word_eq_iff]
  intro i hi
  exact putWord_byte m a w hi

/-- Two words whose distance is a multiple of four do not overlap. -/
theorem not_inWindow_of_ne {a b : Addr} (hne : a ≠ b) (hdist : (a - b).toNat % 4 = 0) {i : ℕ}
    (hi : i < 4) : ¬ InWindow b 4 (a + BitVec.ofNat 32 i) := by
  intro hin
  have hin' : (a + BitVec.ofNat 32 i - b).toNat < 4 := hin
  apply hne
  bv_omega

theorem word_putWord_of_ne {m : Phys} {a b : Addr} {w : BitVec 32} (hne : a ≠ b)
    (hdist : (a - b).toNat % 4 = 0) : word (putWord m b w) a = word m a := by
  apply word_congr
  intro i hi
  exact putWord_of_not_inWindow (not_inWindow_of_ne hne hdist hi)

/-- A store changes nothing exactly when the word was there before. -/
theorem putWord_eq_self_iff {m : Phys} {a : Addr} {w : BitVec 32} :
    putWord m a w = m ↔ word m a = w := by
  constructor
  · intro h
    rw [← h, word_putWord]
  · rintro rfl
    funext x
    unfold putWord
    split
    · next hx =>
      rw [byteOf_word m a hx, BitVec.ofNat_toNat, BitVec.setWidth_eq]
      congr 1
      bv_omega
    · rfl

/-! ### Address translation -/

/-- The size of a page. -/
def pageSize : ℕ := 4096

/-- The direct map: virtual addresses are a fixed distance above physical ones. -/
structure DirectMap where
  /-- The distance. -/
  offset : Addr
  aligned : offset.toNat % pageSize = 0

/-- The physical address of an address of the direct map, modulo `2 ^ 32`. -/
def DirectMap.pa (d : DirectMap) (a : Addr) : Addr := a - d.offset

/-- `virt_to_page`: the frame number of an address of the direct map. -/
def DirectMap.virtToPage (d : DirectMap) (a : Addr) : BitVec 32 := d.pa a >>> 12

/-- A frame that is mapped a second time. -/
structure Mapping where
  /-- The address it is mapped at. -/
  base : Addr
  /-- The frame number. -/
  frame : BitVec 32

/-- An access to a word of physical memory. -/
inductive Access where
  | read (a : Addr)
  | write (a : Addr)
  deriving DecidableEq, Repr

/-- The physical address of the word. -/
def Access.addr : Access → Addr
  | .read a => a
  | .write a => a

/-- Physical memory, the alias in force, and the accesses so far. -/
structure Vm where
  /-- Physical memory. -/
  phys : Phys
  /-- The page mapped a second time. -/
  mapping : Option Mapping
  /-- The accesses. -/
  trace : List Access

namespace Vm

variable (d : DirectMap)

/-- The physical address that a virtual address reaches. -/
def translate (vm : Vm) (a : Addr) : Addr :=
  match vm.mapping with
  | none => d.pa a
  | some al => if InWindow al.base pageSize a then al.frame <<< 12 + (a - al.base) else d.pa a

/-- `vmap` of one page, at an address that the kernel has chosen. -/
def vmap (vm : Vm) (base : Addr) (page : BitVec 32) : Vm := { vm with mapping := some ⟨base, page⟩ }

/-- `vunmap`. -/
def vunmap (vm : Vm) : Vm := { vm with mapping := none }

/-- A word as the processor reads it: each byte is translated. -/
def load (vm : Vm) (a : Addr) : BitVec 32 × Vm :=
  (word (fun x => vm.phys (vm.translate d x)) a,
    { vm with trace := vm.trace ++ [.read (vm.translate d a)] })

/-- The memory after a word is written, each byte where it translates to. -/
def store (vm : Vm) (a : Addr) (w : BitVec 32) : Vm :=
  { vm with
    phys := (List.range 4).foldl
      (fun m i => Function.update m (vm.translate d (a + BitVec.ofNat 32 i)) (byteOf w i)) vm.phys
    trace := vm.trace ++ [.write (vm.translate d a)] }

/-- The word at the virtual address `a` is the one at the physical address `b`. -/
def Maps (vm : Vm) (a b : Addr) : Prop :=
  ∀ i < 4, vm.translate d (a + BitVec.ofNat 32 i) = b + BitVec.ofNat 32 i

variable {d} {vm : Vm} {a b : Addr}

theorem Maps.translate_eq (h : vm.Maps d a b) : vm.translate d a = b := by
  have h₀ := h 0 (by omega)
  rwa [BitVec.add_zero, BitVec.add_zero] at h₀

theorem load_eq (h : vm.Maps d a b) :
    vm.load d a = (word vm.phys b, { vm with trace := vm.trace ++ [.read b] }) := by
  unfold load
  rw [h.translate_eq]
  refine Prod.ext ?_ rfl
  dsimp only
  rw [word_eq_iff]
  intro i hi
  rw [h i hi, byteOf_word vm.phys b hi]

theorem store_eq (h : vm.Maps d a b) (w : BitVec 32) :
    vm.store d a w =
      { vm with phys := putWord vm.phys b w, trace := vm.trace ++ [.write b] } := by
  have hstored : (List.range 4).foldl
      (fun m i => Function.update m (vm.translate d (a + BitVec.ofNat 32 i)) (byteOf w i)) vm.phys =
      putWord vm.phys b w := by
    simp only [List.range_succ, List.range_zero, List.nil_append, List.foldl_append,
      List.foldl_cons, List.foldl_nil, h 0 (by omega), h 1 (by omega), h 2 (by omega),
      h 3 (by omega)]
    funext x
    -- the four places are told apart by their distance from the first
    have hplace : ∀ i < 4, x = b + BitVec.ofNat 32 i ↔ (x - b).toNat = i := by
      intro i hi
      constructor
      · rintro rfl
        exact toNat_add_ofNat_sub (by omega)
      · intro heq
        bv_omega
    simp only [Function.update_apply, hplace 0 (by omega), hplace 1 (by omega),
      hplace 2 (by omega), hplace 3 (by omega)]
    unfold putWord
    by_cases hx : InWindow b 4 x
    · have hlt : (x - b).toNat < 4 := hx
      rw [if_pos hx]
      generalize (x - b).toNat = n at hlt
      interval_cases n <;> rfl
    · have hge : ¬ (x - b).toNat < 4 := hx
      rw [if_neg hx, if_neg (by omega), if_neg (by omega), if_neg (by omega), if_neg (by omega)]
  unfold store
  rw [hstored, h.translate_eq]

/-- **The alias of the page of an aligned address reaches the word at that
address**, wherever it lies in its page. -/
theorem maps_alias (vm : Vm) (base : Addr) {a : Addr} (ha : a.toNat % 4 = 0) :
    (vm.vmap base (d.virtToPage a)).Maps d (base + (a &&& 0xFFF#32)) (d.pa a) := by
  intro i hi
  have hoff : (a &&& 0xFFF#32).toNat = a.toNat % 4096 := by
    rw [BitVec.toNat_and]
    exact Nat.and_two_pow_sub_one_eq_mod a.toNat 12
  have hin : InWindow base pageSize (base + (a &&& 0xFFF#32) + BitVec.ofNat 32 i) := by
    change (base + (a &&& 0xFFF#32) + BitVec.ofNat 32 i - base).toNat < 4096
    bv_omega
  have hd := d.aligned
  unfold pageSize at hd
  rw [translate, vmap]
  dsimp only
  rw [if_pos hin]
  apply BitVec.eq_of_toNat_eq
  simp only [DirectMap.virtToPage, DirectMap.pa, BitVec.toNat_add, BitVec.toNat_sub,
    BitVec.toNat_shiftLeft, BitVec.toNat_ushiftRight, BitVec.toNat_ofNat, hoff,
    Nat.shiftRight_eq_div_pow, Nat.shiftLeft_eq]
  have := a.isLt
  have := base.isLt
  have := d.offset.isLt
  omega

/-- Outside its window an alias changes nothing. -/
theorem maps_linear {vm : Vm} {a : Addr}
    (hout : ∀ al, vm.mapping = some al → ∀ i < 4,
      ¬ InWindow al.base pageSize (a + BitVec.ofNat 32 i)) :
    vm.Maps d a (d.pa a) := by
  intro i hi
  have hpa : d.pa (a + BitVec.ofNat 32 i) = d.pa a + BitVec.ofNat 32 i := by
    unfold DirectMap.pa
    bv_omega
  rw [translate]
  cases hm : vm.mapping with
  | none => exact hpa
  | some al =>
    dsimp only
    rw [if_neg (hout al hm i hi), hpa]

variable {m : Phys} {t : List Access} {base : Addr}

/-- Reading an aligned word through the alias of its page. -/
theorem load_alias (ha : a.toNat % 4 = 0) :
    (Vm.mk m (some ⟨base, d.virtToPage a⟩) t).load d (base + (a &&& 0xFFF#32)) =
      (word m (d.pa a), ⟨m, some ⟨base, d.virtToPage a⟩, t ++ [.read (d.pa a)]⟩) :=
  load_eq (maps_alias ⟨m, none, t⟩ base ha)

/-- Writing one. -/
theorem store_alias (ha : a.toNat % 4 = 0) (w : BitVec 32) :
    (Vm.mk m (some ⟨base, d.virtToPage a⟩) t).store d (base + (a &&& 0xFFF#32)) w =
      ⟨putWord m (d.pa a) w, some ⟨base, d.virtToPage a⟩, t ++ [.write (d.pa a)]⟩ :=
  store_eq (maps_alias ⟨m, none, t⟩ base ha) w

end Vm
end KernelStudy
