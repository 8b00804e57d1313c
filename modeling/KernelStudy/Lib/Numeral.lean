import KernelStudy.Lib.Text
import Mathlib.Tactic

/-!
# Reading and writing numerals

`simple_strtoul` reads a number in a base that it may have to guess: a leading `0x` is
for base 16 and any other leading `0` for base 8.  `%08lx` writes eight digits of base
16, leading zeros included and without a prefix, so what it writes is read in base 8.

The numbers are taken modulo some `m`, as unsigned arithmetic does.

## Main definitions

* `digitVal` — the value of a digit.
* `readDigits`, `simpleStrtoul`, `simpleStrtol` — reading.
* `hexText w v` — the last `w` digits of `v` in base 16.

## Main results

* `simpleStrtol_intText` — **what `%d` writes is read back.**
* `readDigits_hexText` — in base 16 the number is read that was written.
* `readDigits_hexText_eight` — **in base 8 it is that number exactly if it is below 8.**
-/

namespace KernelStudy

/-- The value of a digit, up to base 16; `none` for what `isxdigit` rejects. -/
def digitVal (c : UInt8) : Option ℕ :=
  if 48 ≤ c ∧ c ≤ 57 then some (c.toNat - 48)
  else if 97 ≤ c ∧ c ≤ 102 then some (c.toNat - 87)
  else if 65 ≤ c ∧ c ≤ 70 then some (c.toNat - 55)
  else none

/-- The loop of `simple_strtoul`: the number, and how many digits it has. -/
def readDigits (m base : ℕ) : List UInt8 → ℕ → ℕ × ℕ
  | [], result => (result, 0)
  | c :: cs, result =>
      match digitVal c with
      | none => (result, 0)
      | some d =>
          if d < base then
            let r := readDigits m base cs ((result * base + d) % m)
            (r.1, r.2 + 1)
          else (result, 0)

/-- The text begins with `0x` or `0X`. -/
def hexPrefix : List UInt8 → Bool
  | 48 :: 120 :: _ => true
  | 48 :: 88 :: _ => true
  | _ => false

/-- `simple_guess_base`. -/
def simpleGuessBase (cp : List UInt8) : ℕ :=
  if cp.head? = some 48 then
    if hexPrefix cp ∧ ((cp[2]?).bind digitVal).isSome then 16 else 8
  else 10

/-- `simple_strtoul` in a base that is known. -/
def strtoulIn (m base : ℕ) (cp : List UInt8) : ℕ × ℕ :=
  if base = 16 ∧ hexPrefix cp then
    let r := readDigits m base (cp.drop 2) 0
    (r.1, r.2 + 2)
  else readDigits m base cp 0

/-- `simple_strtoul`: the number, and how much of the text it takes. -/
def simpleStrtoul (m : ℕ) (cp : List UInt8) (base : ℕ) : ℕ × ℕ :=
  strtoulIn m (if base = 0 then simpleGuessBase cp else base) cp

/-- `simple_strtol`. -/
def simpleStrtol (m : ℕ) (cp : List UInt8) (base : ℕ) : ℤ × ℕ :=
  match cp with
  | 45 :: cp =>
      let r := simpleStrtoul m cp base
      (-(r.1 : ℤ), r.2 + 1)
  | cp =>
      let r := simpleStrtoul m cp base
      (r.1, r.2)

/-! ### Reading -/

variable {m base : ℕ}

/-- Where there is no digit, there is no number. -/
theorem readDigits_fst_of_snd {cs : List UInt8} {result : ℕ}
    (h : (readDigits m base cs result).2 = 0) : (readDigits m base cs result).1 = result := by
  cases cs with
  | nil => rfl
  | cons c cs =>
    unfold readDigits at h ⊢
    split
    · rfl
    · next d hd =>
      rw [hd] at h
      dsimp only at h ⊢
      split
      · next hlt =>
        rw [if_pos hlt] at h
        cases h
      · rfl

theorem strtoulIn_fst_of_snd {cp : List UInt8} (h : (strtoulIn m base cp).2 = 0) :
    (strtoulIn m base cp).1 = 0 := by
  unfold strtoulIn at h ⊢
  split
  · next hpre =>
    rw [if_pos hpre] at h
    cases h
  · next hpre =>
    rw [if_neg hpre] at h
    exact readDigits_fst_of_snd h

/-- A text of which nothing is taken is read as 0. -/
theorem simpleStrtol_fst_of_snd {cp : List UInt8} {base : ℕ}
    (h : (simpleStrtol m cp base).2 = 0) : (simpleStrtol m cp base).1 = 0 := by
  unfold simpleStrtol at h ⊢
  split
  · cases h
  · next hminus =>
    split at h
    · cases h
    · dsimp only at h ⊢
      rw [simpleStrtoul, strtoulIn_fst_of_snd h]
      rfl

/-! ### Writing in base 10 -/

theorem digitVal_digitByte {d : ℕ} (h : d < 10) : digitVal (digitByte d) = some d := by
  interval_cases d <;> rfl

/-- One digit is read. -/
theorem readDigits_digitByte {d result : ℕ} (hd : d < 10) (hm : result * 10 + d < m)
    (rest : List UInt8) : readDigits m 10 (digitByte d :: rest) result =
      ((readDigits m 10 rest (result * 10 + d)).1,
        (readDigits m 10 rest (result * 10 + d)).2 + 1) := by
  rw [readDigits, digitVal_digitByte hd]
  dsimp only
  rw [if_pos hd, Nat.mod_eq_of_lt hm]

/-- **In base 10 the number is read that was written**, and more digits may follow. -/
theorem readDigits_natText (n : ℕ) (hn : n < m) : ∀ rest : List UInt8,
    readDigits m 10 (natText n ++ rest) 0 =
      ((readDigits m 10 rest n).1, (readDigits m 10 rest n).2 + (natText n).length) := by
  induction n using Nat.strong_induction_on with
  | _ n ih =>
    intro rest
    have hdigit : n % 10 < 10 := Nat.mod_lt n (by omega)
    rw [natText_eq]
    split
    · next hlt =>
      have hmod : 0 * 10 + n % 10 = n := by omega
      rw [List.nil_append, List.singleton_append, readDigits_digitByte hdigit (by omega), hmod,
        List.length_singleton]
    · next hge =>
      have hvalue : n / 10 * 10 + n % 10 = n := by omega
      rw [List.append_assoc, List.singleton_append, ih (n / 10) (by omega) (by omega),
        readDigits_digitByte hdigit (by omega), hvalue, List.length_append, List.length_singleton]
      refine Prod.ext rfl ?_
      dsimp only
      omega

section

variable {rest : List UInt8} (hrest : ∀ base result, readDigits m base rest result = (result, 0))
include hrest

/-- The base is guessed right, since there are no leading zeros. -/
theorem simpleStrtoul_natText (hx : hexPrefix (48 :: rest) = false) {n : ℕ} (hn : n < m) :
    simpleStrtoul m (natText n ++ rest) 0 = (n, (natText n).length) := by
  rcases Nat.eq_zero_or_pos n with rfl | hpos
  · -- a zero is read in base 8
    have hbase : simpleGuessBase (48 :: rest) = 8 := by
      rw [simpleGuessBase, List.head?_cons, if_pos rfl, hx]
      rfl
    have hzero : natText 0 = [48] := rfl
    rw [hzero, List.singleton_append, simpleStrtoul, if_pos rfl, hbase, strtoulIn,
      if_neg fun h => absurd h.1 (by decide), readDigits, show digitVal 48 = some 0 from rfl]
    dsimp only
    rw [if_pos (by decide), Nat.zero_mul, Nat.zero_mod, hrest]
    rfl
  · have hhead : (natText n ++ rest).head? ≠ some 48 := by
      rw [List.head?_append_of_ne_nil _ (natText_ne_nil n)]
      exact head_natText hpos
    rw [simpleStrtoul, if_pos rfl, simpleGuessBase, if_neg hhead, strtoulIn,
      if_neg fun h => absurd h.1 (by decide), readDigits_natText n hn, hrest, Nat.zero_add]

/-- **What `%d` writes is read back.** -/
theorem simpleStrtol_intText (hx : hexPrefix (48 :: rest) = false) {v : ℤ} (hv : v.natAbs < m) :
    simpleStrtol m (intText v ++ rest) 0 = (v, (intText v).length) := by
  have hread := simpleStrtoul_natText hrest hx hv
  unfold intText
  split
  · next hneg =>
    rw [List.cons_append, simpleStrtol, hread]
    refine Prod.ext ?_ rfl
    dsimp only
    omega
  · next hpos =>
    have hminus : ∀ cs, natText v.natAbs ++ rest ≠ 45 :: cs := by
      intro cs h
      obtain ⟨c, l, htext⟩ := List.exists_cons_of_ne_nil (natText_ne_nil v.natAbs)
      rw [htext, List.cons_append, List.cons.injEq] at h
      obtain ⟨d, hd, hc⟩ := exists_digit_of_mem_natText v.natAbs c (by rw [htext]; simp)
      have hval := digitVal_digitByte hd
      rw [← hc, h.1] at hval
      cases hval
    unfold simpleStrtol
    split
    · next cs h => exact absurd h (hminus cs)
    · rw [hread]
      refine Prod.ext ?_ rfl
      dsimp only
      omega

end

/-! ### Writing in base 16 -/

/-- A digit of base 16. -/
def hexDigit (d : ℕ) : UInt8 := if d < 10 then (48 + d).toUInt8 else (87 + d).toUInt8

/-- The last `w` digits of a number in base 16. -/
def hexText : ℕ → ℕ → List UInt8
  | 0, _ => []
  | w + 1, v => hexDigit (v / 16 ^ w % 16) :: hexText w v

theorem digitVal_hexDigit {d : ℕ} (h : d < 16) : digitVal (hexDigit d) = some d := by
  interval_cases d <;> rfl

@[simp] theorem length_hexText (w v : ℕ) : (hexText w v).length = w := by
  induction w with
  | zero => rfl
  | succ w ih => rw [hexText, List.length_cons, ih]

section

variable {rest : List UInt8}

/-- One digit is read. -/
theorem readDigits_hexText_succ (w v result : ℕ) :
    readDigits m base (hexText (w + 1) v ++ rest) result =
      if v / 16 ^ w % 16 < base then
        ((readDigits m base (hexText w v ++ rest) ((result * base + v / 16 ^ w % 16) % m)).1,
          (readDigits m base (hexText w v ++ rest) ((result * base + v / 16 ^ w % 16) % m)).2 + 1)
      else (result, 0) := by
  rw [hexText, List.cons_append, readDigits, digitVal_hexDigit (Nat.mod_lt _ (by omega))]

/-- The digits, put before those that have been read. -/
theorem hexText_shift (w v result : ℕ) : (result * 16 + v / 16 ^ w % 16) * 16 ^ w + v % 16 ^ w =
    result * 16 ^ (w + 1) + v % 16 ^ (w + 1) := by
  rw [Nat.mod_pow_succ]
  ring

/-- **In base 16 the number is read that was written.** -/
theorem readDigits_hexText (hrest : ∀ result, readDigits m 16 rest result = (result, 0)) (v : ℕ) :
    ∀ w result, result * 16 ^ w + v % 16 ^ w < m →
      readDigits m 16 (hexText w v ++ rest) result = (result * 16 ^ w + v % 16 ^ w, w) := by
  intro w
  induction w with
  | zero =>
    intro result _
    rw [hexText, List.nil_append, hrest, pow_zero, mul_one, Nat.mod_one, add_zero]
  | succ w ih =>
    intro result hm
    have hdigit : v / 16 ^ w % 16 < 16 := Nat.mod_lt _ (by omega)
    have hvalue := hexText_shift w v result
    have hpos : 0 < 16 ^ w := Nat.pow_pos (by omega)
    have hsmall : result * 16 + v / 16 ^ w % 16 < m := by
      refine lt_of_le_of_lt ?_ hm
      rw [← hvalue]
      exact (Nat.le_mul_of_pos_right _ hpos).trans (Nat.le_add_right _ _)
    rw [readDigits_hexText_succ, if_pos hdigit, Nat.mod_eq_of_lt hsmall, ih _ (by omega), hvalue]

/-- In base 8 no more is read than was written. -/
theorem readDigits_hexText_le (hrest : ∀ result, readDigits m 8 rest result = (result, 0))
    (v k : ℕ) : ∀ w result bound, result + k ≤ bound →
      (readDigits m 8 (hexText w v ++ rest) result).1 + k ≤ bound * 16 ^ w + v % 16 ^ w := by
  intro w
  induction w with
  | zero =>
    intro result bound h
    rw [hexText, List.nil_append, hrest, pow_zero, mul_one]
    exact h.trans (Nat.le_add_right _ _)
  | succ w ih =>
    intro result bound h
    rw [readDigits_hexText_succ]
    split
    · -- eight times what was read is at most sixteen times the bound
      rw [← hexText_shift]
      refine ih _ _ ?_
      have hmod := Nat.mod_le (result * 8 + v / 16 ^ w % 16) m
      omega
    · have hpos : 0 < 16 ^ (w + 1) := Nat.pow_pos (by omega)
      exact h.trans ((Nat.le_mul_of_pos_right _ hpos).trans (Nat.le_add_right _ _))

/-- **In base 8 the number that was written is read exactly if it is below 8.** -/
theorem readDigits_hexText_eight (hm : 8 ≤ m)
    (hrest : ∀ result, readDigits m 8 rest result = (result, 0)) (v : ℕ) : ∀ w,
      (readDigits m 8 (hexText w v ++ rest) 0).1 = v % 16 ^ w ↔ v % 16 ^ w < 8 := by
  intro w
  induction w with
  | zero => simp [hexText, hrest, Nat.mod_one]
  | succ w ih =>
    have hvalue := hexText_shift w v 0
    have hpos : 0 < 16 ^ w := Nat.pow_pos (by omega)
    rw [Nat.zero_mul, Nat.zero_add, Nat.zero_mul, Nat.zero_add] at hvalue
    rw [readDigits_hexText_succ, Nat.zero_mul, Nat.zero_add, ← hvalue]
    generalize v / 16 ^ w % 16 = d
    split
    · next hd =>
      rcases Nat.eq_zero_or_pos d with rfl | hdpos
      · simpa using ih
      · rw [Nat.mod_eq_of_lt (hd.trans_le hm)]
        cases w with
        | zero => simp [hexText, hrest, Nat.mod_one, hd]
        | succ w =>
          -- a digit before the last one counts for less in base 8
          have hlarge : 16 ≤ d * 16 ^ (w + 1) := by
            rw [pow_succ]
            nlinarith [Nat.pow_pos (n := w) (show 0 < 16 by omega)]
          have hless : (readDigits m 8 (hexText (w + 1) v ++ rest) d).1 <
              d * 16 ^ (w + 1) + v % 16 ^ (w + 1) := by
            rw [readDigits_hexText_succ]
            split
            · rw [← hexText_shift]
              refine readDigits_hexText_le hrest v 1 w _ _ ?_
              have hmod := Nat.mod_le (d * 8 + v / 16 ^ w % 16) m
              omega
            · dsimp only
              omega
          exact iff_of_false hless.ne (by omega)
    · next hd =>
      have hlarge : 8 ≤ d * 16 ^ w := (not_lt.mp hd).trans (Nat.le_mul_of_pos_right _ hpos)
      refine iff_of_false ?_ (by omega)
      dsimp only
      omega

end

end KernelStudy
