import Mathlib.Data.Nat.Digits.Defs
import Mathlib.Tactic

/-!
# C text

The part of C's string handling that kernel code leans on: ASCII literals as
byte lists, the decimal conversions of `printf`, the buffer writes of `sprintf`
and `snprintf`, and `strncmp`.

## Main definitions

* `natText`, `intText`, `padText` — the conversions `%u`, `%d` and `%0wd`.
* `fixedDigits w n` — the `w` low decimal digits of `n`, leading zeros included.
* `leading w n` — the number that the first `w` decimal digits of `n` make.
* `sprintf`, `snprintf`, `strncpy` — the buffer after the call.
* `strncmp` — comparison of at most `n` bytes, stopping at a NUL.

## Main results

* `zeroFill_natText` — padding a number that fits its width yields its fixed
  digits.
* `take_zeroFill_natText` — what is left of a padded number cut to its width.
* `fixedDigits_inj` — numbers that fit a width differ in their fixed digits.
* `natText_inj`, `head_natText` — a number has one text, without leading zeros.
* `length_intText_le` — a 32-bit signed number prints to at most eleven bytes.
* `strncmp_eq_zero_iff` — what a match against a text without NUL means.
-/

namespace KernelStudy

/-- The bytes of an ASCII text, without a terminator. -/
def bytes (s : String) : List UInt8 := s.toList.map fun c => c.toNat.toUInt8

/-! ### Decimal conversions -/

/-- The byte of a decimal digit. -/
def digitByte (d : ℕ) : UInt8 := (48 + d).toUInt8

/-- A natural number as `%u` prints it. -/
def natText (n : ℕ) : List UInt8 := (Nat.toDigits 10 n).map fun c => c.toNat.toUInt8

/-- An integer as `%d` prints it. -/
def intText (n : ℤ) : List UInt8 :=
  if n < 0 then 45 :: natText n.natAbs else natText n.natAbs

/-- Zeros in front of a digit string, up to width `w`. -/
def zeroFill (w : ℕ) (ds : List UInt8) : List UInt8 := List.replicate (w - ds.length) 48 ++ ds

/-- An integer as `%0wd` prints it: the sign counts towards the width. -/
def padText (w : ℕ) (n : ℤ) : List UInt8 :=
  if n < 0 then 45 :: zeroFill (w - 1) (natText n.natAbs) else zeroFill w (natText n.natAbs)

/-- The `w` low decimal digits of `n`, leading zeros included. -/
def fixedDigits : ℕ → ℕ → List UInt8
  | 0, _ => []
  | w + 1, n => fixedDigits w (n / 10) ++ [digitByte (n % 10)]

theorem toUInt8_digitChar {d : ℕ} (h : d < 10) :
    (Nat.digitChar d).toNat.toUInt8 = digitByte d := by
  interval_cases d <;> rfl

theorem digitByte_ne_zero {d : ℕ} (h : d < 10) : digitByte d ≠ 0 := by
  interval_cases d <;> decide

/-- The last digit comes off the end. -/
theorem natText_eq (n : ℕ) :
    natText n = (if n < 10 then [] else natText (n / 10)) ++ [digitByte (n % 10)] := by
  unfold natText
  rw [Nat.toDigits_eq_if (by omega)]
  split
  · next h => simp [toUInt8_digitChar h, Nat.mod_eq_of_lt h]
  · simp [toUInt8_digitChar (Nat.mod_lt n (by omega : 0 < 10))]

theorem length_natText_le : ∀ (w n : ℕ), 0 < w → n < 10 ^ w → (natText n).length ≤ w := by
  intro w
  induction w with
  | zero => intro n h _; omega
  | succ w ih =>
    intro n _ hn
    rw [natText_eq]
    split
    · simp
    · next h =>
      rw [pow_succ] at hn
      have hw : 0 < w := by
        rcases Nat.eq_zero_or_pos w with rfl | hw
        · omega
        · exact hw
      have := ih (n / 10) hw (by omega)
      simpa using this

/-- No byte of a printed number is NUL. -/
theorem ne_zero_of_mem_natText (n : ℕ) : ∀ c ∈ natText n, c ≠ 0 := by
  induction n using Nat.strong_induction_on with
  | _ n ih =>
    intro c hc
    rw [natText_eq, List.mem_append, List.mem_singleton] at hc
    rcases hc with hc | rfl
    · split at hc
      · simp at hc
      · exact ih (n / 10) (by omega) c hc
    · exact digitByte_ne_zero (Nat.mod_lt n (by omega))

theorem ne_zero_of_mem_intText {n : ℤ} {c : UInt8} (hc : c ∈ intText n) : c ≠ 0 := by
  unfold intText at hc
  split at hc
  · rcases List.mem_cons.mp hc with rfl | hc
    · decide
    · exact ne_zero_of_mem_natText _ c hc
  · exact ne_zero_of_mem_natText _ c hc

/-- A 32-bit signed number prints to at most eleven bytes. -/
theorem length_intText_le {n : ℤ} (hlo : -2 ^ 31 ≤ n) (hhi : n < 2 ^ 31) :
    (intText n).length ≤ 11 := by
  have hdigits : (natText n.natAbs).length ≤ 10 :=
    length_natText_le 10 n.natAbs (by omega) (by omega)
  unfold intText
  split
  · rw [List.length_cons]; omega
  · omega

@[simp] theorem length_fixedDigits : ∀ (w n : ℕ), (fixedDigits w n).length = w := by
  intro w
  induction w with
  | zero => intro n; rfl
  | succ w ih => intro n; simp [fixedDigits, ih]

theorem fixedDigits_zero : ∀ w : ℕ, fixedDigits w 0 = List.replicate w 48 := by
  intro w
  induction w with
  | zero => rfl
  | succ w ih =>
    rw [fixedDigits, Nat.zero_div, ih, List.replicate_succ']
    rfl

/-- **A number that fits its width prints as its fixed digits.** -/
theorem zeroFill_natText : ∀ (w n : ℕ), 0 < w → n < 10 ^ w →
    zeroFill w (natText n) = fixedDigits w n := by
  intro w
  induction w with
  | zero => intro n h _; omega
  | succ w ih =>
    intro n _ hn
    rw [natText_eq, fixedDigits]
    split
    · next h =>
      rw [Nat.div_eq_of_lt h, fixedDigits_zero]
      simp [zeroFill]
    · next h =>
      rw [pow_succ] at hn
      have hw : 0 < w := by
        rcases Nat.eq_zero_or_pos w with rfl | hw
        · omega
        · exact hw
      rw [← ih (n / 10) hw (by omega)]
      simp [zeroFill]

/-- A non-negative number that fits its width prints as its fixed digits. -/
theorem padText_of_lt {w : ℕ} {n : ℤ} (hw : 0 < w) (h0 : 0 ≤ n) (hn : n < 10 ^ w) :
    padText w n = fixedDigits w n.toNat := by
  have habs : n.natAbs = n.toNat := by omega
  have hlt : n.toNat < 10 ^ w := by
    have : (n.toNat : ℤ) < ((10 ^ w : ℕ) : ℤ) := by push_cast; omega
    exact_mod_cast this
  rw [padText, if_neg (by omega), habs, zeroFill_natText w _ hw hlt]

/-- The fixed digits of a number are ASCII digits. -/
theorem mem_fixedDigits : ∀ (w n : ℕ) {c : UInt8}, c ∈ fixedDigits w n →
    48 ≤ c.toNat ∧ c.toNat ≤ 57 := by
  intro w
  induction w with
  | zero => intro n c h; simp [fixedDigits] at h
  | succ w ih =>
    intro n c h
    rw [fixedDigits, List.mem_append, List.mem_singleton] at h
    rcases h with h | rfl
    · exact ih _ h
    · simp only [digitByte, Nat.toUInt8, UInt8.toNat_ofNat']
      omega

/-- The padding is never NUL. -/
theorem ne_zero_of_mem_padText {w : ℕ} {n : ℤ} {c : UInt8} (hc : c ∈ padText w n) : c ≠ 0 := by
  have hfill : ∀ (v k : ℕ), c ∈ zeroFill v (natText k) → c ≠ 0 := by
    intro v k h
    rw [zeroFill, List.mem_append] at h
    rcases h with h | h
    · rw [List.eq_of_mem_replicate h]
      decide
    · exact ne_zero_of_mem_natText k c h
  unfold padText at hc
  split at hc
  · rcases List.mem_cons.mp hc with rfl | hc
    · decide
    · exact hfill _ _ hc
  · exact hfill _ _ hc

/-- A padded number has at least its width. -/
theorem le_length_padText (w : ℕ) (n : ℤ) : w ≤ (padText w n).length := by
  unfold padText zeroFill
  split
  · simp only [List.length_cons, List.length_append, List.length_replicate]
    omega
  · simp only [List.length_append, List.length_replicate]
    omega

/-! ### Numbers cut to a width -/

/-- The number that the first `w` decimal digits of `n` make: all of `n` if it
has no more than `w`. -/
def leading (w n : ℕ) : ℕ := if n < 10 ^ w then n else leading w (n / 10)
termination_by n
decreasing_by
  have : 0 < 10 ^ w := by positivity
  omega

theorem leading_of_lt {w n : ℕ} (h : n < 10 ^ w) : leading w n = n := by
  rw [leading, if_pos h]

theorem leading_lt (w n : ℕ) : leading w n < 10 ^ w := by
  induction n using Nat.strong_induction_on with
  | _ n ih =>
    rw [leading]
    split
    · next h => exact h
    · next h =>
      have : 0 < 10 ^ w := by positivity
      exact ih (n / 10) (by omega)

theorem lt_length_natText : ∀ (k n : ℕ), 10 ^ k ≤ n → k < (natText n).length := by
  intro k
  induction k with
  | zero =>
    intro n _
    rw [natText_eq, List.length_append, List.length_singleton]
    omega
  | succ k ih =>
    intro n hn
    rw [pow_succ] at hn
    have hpos : 0 < 10 ^ k := by positivity
    have := ih (n / 10) (by omega)
    rw [natText_eq, if_neg (by omega), List.length_append, List.length_singleton]
    omega

/-- **A padded number cut to its width** is the fixed digits of its leading
part. -/
theorem take_zeroFill_natText {w : ℕ} (hw : 0 < w) (n : ℕ) :
    (zeroFill w (natText n)).take w = fixedDigits w (leading w n) := by
  induction n using Nat.strong_induction_on with
  | _ n ih =>
    by_cases hlt : n < 10 ^ w
    · rw [leading_of_lt hlt, zeroFill_natText w n hw hlt]
      exact List.take_of_length_le (length_fixedDigits w n).le
    · -- the last digit is beyond the cut, and there is no padding
      obtain ⟨v, rfl⟩ : ∃ v, w = v + 1 := ⟨w - 1, by omega⟩
      rw [pow_succ] at hlt
      have hpos : 0 < 10 ^ v := by positivity
      have hfill : ∀ ds : List UInt8, v + 1 ≤ ds.length → zeroFill (v + 1) ds = ds := by
        intro ds h
        rw [zeroFill, Nat.sub_eq_zero_of_le h]
        rfl
      have hlen := lt_length_natText v (n / 10) (by omega)
      rw [leading, if_neg (by rw [pow_succ]; exact hlt), ← ih (n / 10) (by omega),
        hfill (natText (n / 10)) hlen, natText_eq n, if_neg (by omega), hfill _ (by simp; omega),
        List.take_append_of_le_length hlen]

theorem digitByte_inj {d e : ℕ} (hd : d < 10) (he : e < 10) (h : digitByte d = digitByte e) :
    d = e := by
  have hnat := congrArg UInt8.toNat h
  simp only [digitByte, Nat.toUInt8, UInt8.toNat_ofNat'] at hnat
  omega

/-- Numbers that fit a width differ in their fixed digits. -/
theorem fixedDigits_inj : ∀ (w : ℕ) {m n : ℕ}, m < 10 ^ w → n < 10 ^ w →
    fixedDigits w m = fixedDigits w n → m = n := by
  intro w
  induction w with
  | zero => intro m n hm hn _; omega
  | succ w ih =>
    intro m n hm hn h
    rw [pow_succ] at hm hn
    obtain ⟨hhigh, hlow⟩ := List.append_inj h (by simp)
    have hdiv := ih (by omega) (by omega) hhigh
    have hmod := digitByte_inj (Nat.mod_lt m (by omega)) (Nat.mod_lt n (by omega))
      (List.singleton_injective hlow)
    omega

/-! ### The digits of a number -/

theorem natText_of_lt {n : ℕ} (h : n < 10) : natText n = [digitByte n] := by
  rw [natText_eq, if_pos h, Nat.mod_eq_of_lt h]
  rfl

theorem natText_ne_nil (n : ℕ) : natText n ≠ [] := by
  rw [natText_eq]
  exact List.append_ne_nil_of_right_ne_nil _ (List.cons_ne_nil _ _)

/-- Two numbers have two texts. -/
theorem natText_inj {m n : ℕ} (h : natText m = natText n) : m = n := by
  induction m using Nat.strong_induction_on generalizing n with
  | _ m ih =>
    rw [natText_eq m, natText_eq n] at h
    obtain ⟨hinit, hlast⟩ := List.append_inj' h rfl
    have hmod : m % 10 = n % 10 :=
      digitByte_inj (Nat.mod_lt m (by decide)) (Nat.mod_lt n (by decide)) (List.cons.inj hlast).1
    split at hinit
    · split at hinit
      · omega
      · exact absurd hinit.symm (natText_ne_nil _)
    · split at hinit
      · exact absurd hinit (natText_ne_nil _)
      · have hdiv := ih (m / 10) (by omega) hinit
        omega

/-- One more digit. -/
theorem natText_snoc {n d : ℕ} (hn : 0 < n) (hd : d < 10) :
    natText (10 * n + d) = natText n ++ [digitByte d] := by
  have hdiv : (10 * n + d) / 10 = n := by omega
  have hmod : (10 * n + d) % 10 = d := by omega
  rw [natText_eq, if_neg (by omega), hdiv, hmod]

/-- A number does not start with a zero, unless it is zero. -/
theorem head_natText {n : ℕ} (hn : 0 < n) : (natText n).head? ≠ some 48 := by
  induction n using Nat.strong_induction_on with
  | _ n ih =>
    rw [natText_eq]
    split
    · next hlt =>
      intro h
      have hzero : digitByte (n % 10) = digitByte 0 := Option.some.inj h
      have := digitByte_inj (Nat.mod_lt n (by decide)) (by decide) hzero
      omega
    · next hge =>
      rw [List.head?_append_of_ne_nil _ (natText_ne_nil _)]
      exact ih (n / 10) (by omega) (by omega)

/-- The bytes of a number are digits. -/
theorem exists_digit_of_mem_natText (n : ℕ) : ∀ c ∈ natText n, ∃ d < 10, c = digitByte d := by
  induction n using Nat.strong_induction_on with
  | _ n ih =>
    intro c hc
    rw [natText_eq, List.mem_append, List.mem_singleton] at hc
    rcases hc with hc | rfl
    · split at hc
      · cases hc
      · exact ih (n / 10) (by omega) c hc
    · exact ⟨n % 10, Nat.mod_lt n (by omega), rfl⟩

/-! ### Buffers -/

/-- The buffer after `sprintf` has printed `s` into it. -/
def sprintf (buf : ℕ → UInt8) (s : List UInt8) : ℕ → UInt8 :=
  fun i => if i < s.length then s.getD i 0 else if i = s.length then 0 else buf i

/-- The buffer after `snprintf` has printed `s` into its first `size` bytes. -/
def snprintf (buf : ℕ → UInt8) (size : ℕ) (s : List UInt8) : ℕ → UInt8 :=
  match size with
  | 0 => buf
  | n + 1 => sprintf buf (s.take n)

/-- The buffer after `strncpy` of `s` with the limit `n`: the text, then zeros. -/
def strncpy (buf : ℕ → UInt8) (s : List UInt8) (n : ℕ) : ℕ → UInt8 :=
  fun i => if i < n then s.getD i 0 else buf i

/-- What `%s` prints of an array of `size` characters. -/
def cText (size : ℕ) (buf : ℕ → UInt8) : List UInt8 :=
  ((List.range size).map buf).takeWhile (· ≠ 0)

theorem sprintf_of_lt (buf : ℕ → UInt8) {s : List UInt8} {i : ℕ} (h : i < s.length) :
    sprintf buf s i = s[i] := by
  simp [sprintf, h]

theorem sprintf_length (buf : ℕ → UInt8) (s : List UInt8) : sprintf buf s s.length = 0 := by
  simp [sprintf]

theorem snprintf_of_lt (buf : ℕ → UInt8) {size : ℕ} {s : List UInt8} {i : ℕ} (hi : i < s.length)
    (hs : i + 1 < size) : snprintf buf size s i = s[i] := by
  cases size with
  | zero => omega
  | succ n =>
    have hlt : i < (s.take n).length := by rw [List.length_take]; omega
    rw [snprintf, sprintf_of_lt buf hlt, List.getElem_take]

/-! ### Comparison -/

/-- `strncmp`: the difference at the first place where the strings differ within
the first `n` bytes, zero if there is none before a common NUL. -/
def strncmp : List UInt8 → List UInt8 → ℕ → ℤ
  | _, _, 0 => 0
  | a :: as, b :: bs, n + 1 =>
      if a ≠ b then (a.toNat : ℤ) - b.toNat else if a = 0 then 0 else strncmp as bs n
  | _, _, _ + 1 => 0

/-- A match against all of a text without NUL is equality of that many bytes. -/
theorem strncmp_eq_zero_iff : ∀ (bs as : List UInt8), (∀ c ∈ bs, c ≠ 0) →
    bs.length ≤ as.length → (strncmp as bs bs.length = 0 ↔ as.take bs.length = bs) := by
  intro bs
  induction bs with
  | nil => intro as _ _; cases as <;> simp [strncmp]
  | cons b bs ih =>
    intro as hne hlen
    cases as with
    | nil => simp at hlen
    | cons a as =>
      rw [List.length_cons, strncmp, List.take_succ_cons]
      by_cases hab : a = b
      · subst hab
        have ha : a ≠ 0 := hne a List.mem_cons_self
        have htail := ih as (fun c hc => hne c (List.mem_cons_of_mem _ hc)) (by simpa using hlen)
        simp [ha, htail]
      · rw [if_pos hab]
        have hdiff : (a.toNat : ℤ) - b.toNat ≠ 0 := by
          intro h
          apply hab
          apply UInt8.toNat_inj.mp
          omega
        simp [hdiff, hab]

end KernelStudy
