import KernelStudy.Lib.Text

/-!
# Numbers as names

`/proc` names a process, a thread and a file descriptor by its number.  The
directories print the number with `"%d"`, and `name_to_int` reads it back when a
path is looked up.  It is strict: one number has one name, so that the dentry
cache never holds two entries for one process.

## Main definitions

* `printedName` — a number as the directories print it.
* `nameToInt` — the code; `noInt`, which is `~0U`, is its failure.
* `maxName` — the greatest number that has a name.

## Main results

* `printedName_eq` — the buffer holds every `int`.
* `nameToInt_eq_iff` — the names that are read as a number.
* `numeric_names` — **what is printed is read back, and nothing else is read.**
-/

namespace KernelStudy
namespace Proc

/-! ### The code -/

/-- Conversion to `unsigned int`. -/
def u32 (x : ℤ) : ℕ := (x % 2 ^ 32).toNat

theorem u32_of_lt {n : ℕ} (h : n < 2 ^ 32) : u32 n = n := by
  unfold u32
  omega

/-- `PROC_NUMBUF`. -/
def procNumbuf : ℕ := 13

/-- The name of a number: what `snprintf` of `"%d"` leaves in a buffer of
`PROC_NUMBUF` bytes, as far as the length it returns says. -/
def printedName (buf : ℕ → UInt8) (n : ℤ) : List UInt8 :=
  (List.range (intText n).length).map (snprintf buf procNumbuf (intText n))

/-- `~0U`. -/
def noInt : ℕ := 2 ^ 32 - 1

/-- A byte as a `char`, which is signed. -/
def sChar (ch : UInt8) : ℤ := if ch.toNat < 128 then ch.toNat else ch.toNat - 256

/-- The loop of `name_to_int`, with the number read so far. -/
def nameLoop : List UInt8 → ℕ → ℕ
  | [], n => n
  | ch :: name, n =>
      let c := u32 (sChar ch - 48)
      if 9 < c then noInt
      else if (noInt - 9) / 10 ≤ n then noInt
      else nameLoop name (u32 (u32 (n * 10) + c))

/-- `name_to_int`. -/
def nameToInt (name : List UInt8) : ℕ :=
  if 1 < name.length ∧ name.head? = some 48 then noInt else nameLoop name 0

/-- The greatest number that has a name.  The loop stops short of the numbers
that a further digit might carry past the end of the type. -/
def maxName : ℕ := 4294967279

/-! ### Printing -/

/-- **The buffer holds every `int`.** -/
theorem printedName_eq (buf : ℕ → UInt8) {n : ℤ} (hlo : -2 ^ 31 ≤ n) (hhi : n < 2 ^ 31) :
    printedName buf n = intText n := by
  have hlen := length_intText_le hlo hhi
  apply List.ext_getElem
  · simp [printedName]
  · intro i hi hi'
    have hroom : i + 1 < procNumbuf := by
      unfold procNumbuf
      omega
    simp only [printedName, List.getElem_map, List.getElem_range]
    exact snprintf_of_lt buf hi' hroom

theorem intText_natCast (n : ℕ) : intText n = natText n := by
  rw [intText, if_neg (by omega), Int.natAbs_natCast]

/-! ### One digit -/

theorem limit_eq : (noInt - 9) / 10 = 429496728 := by norm_num [noInt]

theorem digitByte_eq_iff {d : ℕ} (hd : d < 10) (ch : UInt8) :
    digitByte d = ch ↔ u32 (sChar ch - 48) = d := by
  have hlt := ch.toNat_lt
  have hdigit : (digitByte d).toNat = 48 + d := by
    simp only [digitByte, Nat.toUInt8, UInt8.toNat_ofNat']
    omega
  rw [← UInt8.toNat_inj, hdigit]
  unfold u32 sChar
  split <;> omega

/-- Reading a digit. -/
theorem nameLoop_digit {d n : ℕ} (hd : d < 10) (hn : n < (noInt - 9) / 10) (name : List UInt8) :
    nameLoop (digitByte d :: name) n = nameLoop name (10 * n + d) := by
  have hc : u32 (sChar (digitByte d) - 48) = d := (digitByte_eq_iff hd _).mp rfl
  rw [limit_eq] at hn
  have htimes : u32 ((n : ℤ) * 10) = n * 10 := by
    rw [show (n : ℤ) * 10 = ((n * 10 : ℕ) : ℤ) by push_cast; rfl]
    exact u32_of_lt (by omega)
  have hnext : u32 (((n * 10 : ℕ) : ℤ) + d) = 10 * n + d := by
    rw [show ((n * 10 : ℕ) : ℤ) + d = ((10 * n + d : ℕ) : ℤ) by push_cast; ring]
    exact u32_of_lt (by omega)
  rw [nameLoop, hc, htimes, hnext, limit_eq, if_neg (by omega), if_neg (by omega)]

/-- Whatever is not a digit, or comes too late, ends the loop. -/
theorem nameLoop_cons_cases (ch : UInt8) (name : List UInt8) (n : ℕ) :
    (∃ d < 10, ch = digitByte d ∧ n < (noInt - 9) / 10 ∧
      nameLoop (ch :: name) n = nameLoop name (10 * n + d)) ∨
    nameLoop (ch :: name) n = noInt := by
  by_cases hc : 9 < u32 (sChar ch - 48)
  · right
    rw [nameLoop, if_pos hc]
  · by_cases hn : (noInt - 9) / 10 ≤ n
    · right
      rw [nameLoop, if_neg hc, if_pos hn]
    · left
      have hd : u32 (sChar ch - 48) < 10 := by omega
      have hch : ch = digitByte (u32 (sChar ch - 48)) := ((digitByte_eq_iff hd ch).mpr rfl).symm
      refine ⟨_, hd, hch, by omega, ?_⟩
      rw [hch, nameLoop_digit hd (by omega), ← hch]

/-- A failure stays one. -/
theorem nameLoop_noInt : ∀ name : List UInt8, nameLoop name noInt = noInt := by
  intro name
  cases name with
  | nil => rfl
  | cons ch name =>
    rcases nameLoop_cons_cases ch name noInt with ⟨d, -, -, hlt, -⟩ | hfail
    · rw [limit_eq] at hlt
      exact absurd hlt (by decide)
    · exact hfail

theorem nameLoop_append : ∀ (name name' : List UInt8) (n : ℕ),
    nameLoop (name ++ name') n = nameLoop name' (nameLoop name n) := by
  intro name
  induction name with
  | nil => intro name' n; rfl
  | cons ch name ih =>
    intro name' n
    rw [List.cons_append, nameLoop, nameLoop]
    split
    · exact (nameLoop_noInt name').symm
    · split
      · exact (nameLoop_noInt name').symm
      · exact ih _ _

/-! ### All digits -/

/-- The loop reads what was printed. -/
theorem nameLoop_natText (n : ℕ) (hn : n ≤ maxName) : nameLoop (natText n) 0 = n := by
  induction n using Nat.strong_induction_on with
  | _ n ih =>
    have hdigit : n % 10 < 10 := Nat.mod_lt n (by decide)
    rw [natText_eq]
    split
    · next hlt =>
      rw [List.nil_append, nameLoop_digit hdigit (by rw [limit_eq]; decide), nameLoop]
      omega
    · rw [nameLoop_append, ih (n / 10) (by omega) (by omega),
        nameLoop_digit hdigit (by rw [limit_eq]; unfold maxName at hn; omega), nameLoop]
      omega

/-- What the loop has read behind a number is that number with more digits. -/
theorem natText_of_nameLoop : ∀ (name : List UInt8) (acc n : ℕ), 0 < acc →
    nameLoop name acc = n → n ≠ noInt →
      natText acc ++ name = natText n ∧ (name ≠ [] → n ≤ maxName) := by
  intro name
  induction name with
  | nil =>
    intro acc n _ h _
    rw [nameLoop] at h
    rw [h, List.append_nil]
    exact ⟨rfl, fun hne => absurd rfl hne⟩
  | cons ch name ih =>
    intro acc n hacc h hn
    rcases nameLoop_cons_cases ch name acc with ⟨d, hd, rfl, hlt, hstep⟩ | hfail
    · rw [hstep] at h
      rw [limit_eq] at hlt
      obtain ⟨htext, hmax⟩ := ih (10 * acc + d) n (by omega) h hn
      refine ⟨?_, fun _ => ?_⟩
      · rw [← htext, natText_snoc hacc hd, List.append_assoc]
        rfl
      · cases name with
        | nil =>
          rw [nameLoop] at h
          unfold maxName
          omega
        | cons _ _ => exact hmax (List.cons_ne_nil _ _)
    · exact absurd (h.symm.trans hfail) hn

/-- A number that was printed is read back. -/
theorem nameToInt_natText {n : ℕ} (hn : n ≤ maxName) : nameToInt (natText n) = n := by
  have hlead : ¬ (1 < (natText n).length ∧ (natText n).head? = some 48) := by
    rintro ⟨hlen, hhead⟩
    rcases Nat.eq_zero_or_pos n with rfl | hpos
    · rw [natText_of_lt (by decide)] at hlen
      exact absurd hlen (by decide)
    · exact head_natText hpos hhead
  rw [nameToInt, if_neg hlead, nameLoop_natText n hn]

/-- **The names that are read as a number** are the numbers as they are printed,
up to `maxName`.  The empty name is read as 0; no directory has it. -/
theorem nameToInt_eq_iff (name : List UInt8) {n : ℕ} (hn : n ≠ noInt) :
    nameToInt name = n ↔ (name = natText n ∧ n ≤ maxName) ∨ (name = [] ∧ n = 0) := by
  constructor
  · intro h
    unfold nameToInt at h
    split at h
    · exact absurd h.symm hn
    · next hlead =>
      cases name with
      | nil => exact Or.inr ⟨rfl, h.symm⟩
      | cons ch name =>
        left
        rcases nameLoop_cons_cases ch name 0 with ⟨d, hd, rfl, -, hstep⟩ | hfail
        · rw [hstep, Nat.mul_zero, Nat.zero_add] at h
          rcases Nat.eq_zero_or_pos d with rfl | hpos
          · -- a leading zero is a number of its own
            cases name with
            | nil =>
              rw [nameLoop] at h
              subst h
              exact ⟨rfl, by decide⟩
            | cons ch' name => exact absurd ⟨by simp, rfl⟩ hlead
          · obtain ⟨htext, hmax⟩ := natText_of_nameLoop name d n hpos h hn
            rw [natText_of_lt hd] at htext
            refine ⟨htext, ?_⟩
            cases name with
            | nil =>
              rw [nameLoop] at h
              unfold maxName
              omega
            | cons _ _ => exact hmax (List.cons_ne_nil _ _)
        · exact absurd (h.symm.trans hfail) hn
  · rintro (⟨rfl, hmax⟩ | ⟨rfl, rfl⟩)
    · exact nameToInt_natText hmax
    · rfl

/-- A name that is read as a number is that number as it is printed. -/
theorem natText_nameToInt {name : List UInt8} (hne : name ≠ []) (hn : nameToInt name ≠ noInt) :
    name = natText (nameToInt name) ∧ nameToInt name ≤ maxName := by
  rcases (nameToInt_eq_iff name hn).mp rfl with h | ⟨hnil, -⟩
  · exact h
  · exact absurd hnil hne

/-- **What is printed is read back, and nothing else is read.**  The name of a
process, a thread or a descriptor fits its buffer and is read as its number; a
name that is read as a number is that number as it is printed; so two names are
never read as one number. -/
theorem numeric_names (buf : ℕ → UInt8) :
    (∀ n : ℕ, n < 2 ^ 31 → printedName buf n = natText n ∧ nameToInt (printedName buf n) = n) ∧
    (∀ name, name ≠ [] → nameToInt name ≠ noInt →
      name = natText (nameToInt name) ∧ nameToInt name ≤ maxName) ∧
    ∀ name name', name ≠ [] → name' ≠ [] → nameToInt name = nameToInt name' →
      nameToInt name ≠ noInt → name = name' := by
  refine ⟨?_, fun name => natText_nameToInt, ?_⟩
  · intro n hn
    have hprint : printedName buf n = natText n := by
      rw [printedName_eq buf (by omega) (by omega), intText_natCast]
    rw [hprint]
    refine ⟨rfl, nameToInt_natText ?_⟩
    unfold maxName
    omega
  · intro name name' hne hne' heq hn
    rw [(natText_nameToInt hne hn).1, heq, ← (natText_nameToInt hne' (heq ▸ hn)).1]

/-- Process 4232 is found under its name. -/
theorem numeric_name_of_4232 :
    nameToInt (printedName (fun _ => 0) (4232 : ℕ)) = 4232 ∧
      ∀ name, name ≠ [] → nameToInt name = 4232 → name = bytes "4232" := by
  obtain ⟨hprint, hread, -⟩ := numeric_names fun _ => 0
  refine ⟨(hprint 4232 (by decide)).2, ?_⟩
  intro name hne heq
  have hn : nameToInt name ≠ noInt := by
    rw [heq]
    decide
  have hname := (hread name hne hn).1
  rw [heq] at hname
  rw [hname]
  decide

/-- The greatest name and the next number. -/
example : nameToInt (bytes "4294967279") = maxName ∧
    nameToInt (bytes "4294967280") = noInt ∧ nameToInt (bytes "07") = noInt := by decide

end Proc
end KernelStudy
