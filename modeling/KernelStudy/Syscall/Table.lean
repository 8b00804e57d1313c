import Mathlib.Tactic

/-!
# Hooks in the system call table

The modules replace entries of `sys_call_table` by functions of their own and
keep the old entry to call it, and to put it back when they are unloaded.
`home_hack.c` does this for seven calls with the macros `MAKE_REPLACE_SYSCALL`,
`ADD_HOOK_SYS` and `CLEANUP_SYSCALL`; `syscall.c` does the same for `open` by
hand.

Functions are known by their addresses, of any type `α`.  The numbers of the
system calls are a parameter: an injection of the seven calls into the indices
of the table.

## Main definitions

* `Call`, `hookOrder` — the hooked calls, in the order of `init_module`.
* `addHookSys`, `addHooks` — installing one hook, and a list of them with the
  early return.
* `cleanupSyscall` — removing one hook.

## Main results

* `addHooks_table`, `addHooks_fst`, `addHooks_original` — what a list of
  installations leaves in the table, when it succeeds, and what it saves.
* `cleanupHooks_nr`, `cleanupHooks_of_ne` — what a list of removals leaves.
-/

namespace KernelStudy

/-- The system calls `home_hack` hooks. -/
inductive Call where
  | sysOpen
  | sysChdir
  | sysStat
  | sysStat64
  | sysLstat64
  | sysUnlink
  | sysIoctl
  deriving DecidableEq, Repr

/-- The order in which `init_module` and `cleanup_module` go through them. -/
def hookOrder : List Call :=
  [.sysOpen, .sysChdir, .sysStat, .sysStat64, .sysLstat64, .sysUnlink, .sysIoctl]

theorem nodup_hookOrder : hookOrder.Nodup := by decide

theorem mem_hookOrder (c : Call) : c ∈ hookOrder := by cases c <;> decide

/-- The numbers of the calls on i386. -/
def i386Nr : Call ↪ ℕ where
  toFun
    | .sysOpen => 5
    | .sysChdir => 12
    | .sysStat => 106
    | .sysStat64 => 195
    | .sysLstat64 => 196
    | .sysUnlink => 10
    | .sysIoctl => 54
  inj' := by
    intro c d h
    cases c <;> cases d <;> first | rfl | cases h

/-- `sys_call_table`. -/
abbrev SysCallTable (α : Type*) := ℕ → α

/-- The table, and the pointers `original_sys_*` of one module. -/
structure Hooking (α : Type*) where
  /-- `sys_call_table`. -/
  table : SysCallTable α
  /-- `original_sys_*`. -/
  original : Call → α

variable {α : Type*}

/-! ### Hooks in place -/

section Install

variable (nr : Call ↪ ℕ) (wrapper : Call → α)

/-- The table with the wrappers of a list of calls in place. -/
def install (l : List Call) (t : SysCallTable α) : SysCallTable α :=
  l.foldl (fun t c => Function.update t (nr c) (wrapper c)) t

variable {nr wrapper}

theorem install_nr : ∀ (l : List Call) (t : SysCallTable α) (c : Call),
    install nr wrapper l t (nr c) = if c ∈ l then wrapper c else t (nr c) := by
  intro l
  induction l with
  | nil => intro t c; simp [install]
  | cons d l ih =>
    intro t c
    change install nr wrapper l (Function.update t (nr d) (wrapper d)) (nr c) = _
    rw [ih]
    by_cases hcd : c = d
    · subst hcd
      simp
    · simp [hcd, nr.injective.ne hcd]

theorem install_of_ne : ∀ (l : List Call) (t : SysCallTable α) (i : ℕ), (∀ c, nr c ≠ i) →
    install nr wrapper l t i = t i := by
  intro l
  induction l with
  | nil => intro t i _; rfl
  | cons d l ih =>
    intro t i hi
    change install nr wrapper l (Function.update t (nr d) (wrapper d)) i = _
    rw [ih _ i hi, Function.update_of_ne (Ne.symm (hi d))]

/-- Putting wrappers in place changes nothing exactly when they were there. -/
theorem install_eq_self_iff {l : List Call} {t : SysCallTable α} :
    install nr wrapper l t = t ↔ ∀ c ∈ l, t (nr c) = wrapper c := by
  constructor
  · intro h c hc
    have := congrFun h (nr c)
    rw [install_nr, if_pos hc] at this
    exact this.symm
  · intro h
    funext i
    by_cases hi : ∃ c, nr c = i
    · obtain ⟨c, rfl⟩ := hi
      rw [install_nr]
      split
      · next hc => exact (h c hc).symm
      · rfl
    · exact install_of_ne l t i fun c hc => hi ⟨c, hc⟩

end Install

/-! ### Installing -/

variable [DecidableEq α] (nr : Call ↪ ℕ) (wrapper : Call → α) (sticks : Call → Bool)

/-- `add_hook_sys_*`.  `sticks` says whether the store to the table takes
effect, which is what the re-read after it tests. -/
def addHookSys (c : Call) (s : Hooking α) : ℤ × Hooking α :=
  let s₁ : Hooking α := { s with original := Function.update s.original c (s.table (nr c)) }
  let s₂ : Hooking α :=
    if sticks c then { s₁ with table := Function.update s₁.table (nr c) (wrapper c) } else s₁
  if s₂.table (nr c) ≠ wrapper c then (-1, s₂) else (0, s₂)

/-- A sequence of `ADD_HOOK_SYS`: the first that fails returns from the
function. -/
def addHooks : List Call → Hooking α → ℤ × Hooking α
  | [], s => (0, s)
  | c :: cs, s =>
      let r := addHookSys nr wrapper sticks c s
      if r.1 ≠ 0 then (-1, r.2) else addHooks cs r.2

/-- The installation of a hook fails: the store is lost, and the entry did not
hold the wrapper already. -/
def fails (t : SysCallTable α) (c : Call) : Bool := !sticks c && t (nr c) != wrapper c

variable {nr wrapper sticks}

theorem addHookSys_of_fails {c : Call} {s : Hooking α}
    (h : fails nr wrapper sticks s.table c = true) :
    addHookSys nr wrapper sticks c s =
      (-1, { s with original := Function.update s.original c (s.table (nr c)) }) := by
  simp only [fails, Bool.and_eq_true, Bool.not_eq_true', bne_iff_ne] at h
  simp [addHookSys, h.1, h.2]

theorem addHookSys_of_not_fails {c : Call} {s : Hooking α}
    (h : fails nr wrapper sticks s.table c = false) :
    addHookSys nr wrapper sticks c s =
      (0, { table := Function.update s.table (nr c) (wrapper c)
            original := Function.update s.original c (s.table (nr c)) }) := by
  cases hs : sticks c with
  | true => simp [addHookSys, hs]
  | false =>
    -- the store was lost, but the entry held the wrapper before
    have heq : s.table (nr c) = wrapper c := by simpa [fails, hs] using h
    have hsame : Function.update s.table (nr c) (wrapper c) = s.table := by
      rw [← heq, Function.update_eq_self]
    simp [addHookSys, hs, heq, hsame]

/-- An installed hook does not change whether another one fails. -/
theorem fails_update {t : SysCallTable α} {c d : Call} (hcd : d ≠ c) (a : α) :
    fails nr wrapper sticks (Function.update t (nr c) a) d = fails nr wrapper sticks t d := by
  simp [fails, nr.injective.ne hcd]

theorem takeWhile_fails_update {t : SysCallTable α} {c : Call} {a : α} : ∀ {l : List Call},
    c ∉ l → l.takeWhile (fun d => !fails nr wrapper sticks (Function.update t (nr c) a) d) =
      l.takeWhile fun d => !fails nr wrapper sticks t d := by
  intro l
  induction l with
  | nil => intro _; rfl
  | cons d l ih =>
    intro hc
    rw [List.mem_cons, not_or] at hc
    rw [List.takeWhile_cons, List.takeWhile_cons, fails_update (Ne.symm hc.1), ih hc.2]

/-- **The table after a list of installations**: the hooks before the first that
fails are in place. -/
theorem addHooks_table : ∀ (l : List Call) (s : Hooking α), l.Nodup →
    (addHooks nr wrapper sticks l s).2.table =
      install nr wrapper (l.takeWhile fun c => !fails nr wrapper sticks s.table c) s.table := by
  intro l
  induction l with
  | nil => intro s _; rfl
  | cons c l ih =>
    intro s hl
    obtain ⟨hc, hl⟩ := List.nodup_cons.mp hl
    rw [addHooks, List.takeWhile_cons]
    cases hf : fails nr wrapper sticks s.table c with
    | true => simp [addHookSys_of_fails hf, install]
    | false =>
      -- whether the later ones fail is decided by entries this one does not touch
      rw [addHookSys_of_not_fails hf]
      simp only [ne_eq, not_true_eq_false, if_false, Bool.not_false, if_true]
      rw [ih _ hl, takeWhile_fails_update hc]
      rfl

/-- A list of installations succeeds exactly when none of them fails. -/
theorem addHooks_fst : ∀ (l : List Call) (s : Hooking α), l.Nodup →
    (addHooks nr wrapper sticks l s).1 =
      if ∀ c ∈ l, fails nr wrapper sticks s.table c = false then 0 else -1 := by
  intro l
  induction l with
  | nil => intro s _; simp [addHooks]
  | cons c l ih =>
    intro s hl
    obtain ⟨hc, hl⟩ := List.nodup_cons.mp hl
    rw [addHooks]
    cases hf : fails nr wrapper sticks s.table c with
    | true => simp [addHookSys_of_fails hf, hf]
    | false =>
      rw [addHookSys_of_not_fails hf]
      simp only [ne_eq, not_true_eq_false, if_false, List.forall_mem_cons, hf, true_and]
      rw [ih _ hl]
      refine if_congr (forall₂_congr fun d hd => ?_) rfl rfl
      have hdc : d ≠ c := fun h => hc (h ▸ hd)
      rw [fails_update hdc]

/-- What a successful list of installations saves. -/
theorem addHooks_original : ∀ (l : List Call) (s : Hooking α), l.Nodup →
    (∀ c ∈ l, fails nr wrapper sticks s.table c = false) → ∀ c,
      (addHooks nr wrapper sticks l s).2.original c =
        if c ∈ l then s.table (nr c) else s.original c := by
  intro l
  induction l with
  | nil => intro s _ _ c; simp [addHooks]
  | cons c l ih =>
    intro s hl hok d
    obtain ⟨hc, hl⟩ := List.nodup_cons.mp hl
    rw [List.forall_mem_cons] at hok
    rw [addHooks, addHookSys_of_not_fails hok.1]
    simp only [ne_eq, not_true_eq_false, if_false]
    rw [ih _ hl]
    · by_cases hdc : d = c
      · subst hdc
        simp [hc]
      · simp [hdc, nr.injective.ne hdc]
    · intro e he
      have hec : e ≠ c := fun h => hc (h ▸ he)
      rw [fails_update hec]
      exact hok.2 e he

/-! ### Removing -/

variable (nr wrapper) in
/-- `CLEANUP_SYSCALL`: put the old entry back, unless somebody else has changed
the entry. -/
def cleanupSyscall (original : Call → α) (t : SysCallTable α) (c : Call) : SysCallTable α :=
  if t (nr c) ≠ wrapper c then t else Function.update t (nr c) (original c)

variable (nr wrapper) in
/-- A sequence of `CLEANUP_SYSCALL`. -/
def cleanupHooks (original : Call → α) (l : List Call) (t : SysCallTable α) : SysCallTable α :=
  l.foldl (cleanupSyscall nr wrapper original) t

variable {original : Call → α}

/-- The entry of a call after a list of removals. -/
theorem cleanupHooks_nr : ∀ (l : List Call) (t : SysCallTable α) (c : Call), l.Nodup →
    cleanupHooks nr wrapper original l t (nr c) =
      if c ∈ l ∧ t (nr c) = wrapper c then original c else t (nr c) := by
  intro l
  induction l with
  | nil => intro t c _; simp [cleanupHooks]
  | cons d l ih =>
    intro t c hl
    obtain ⟨hd, hl⟩ := List.nodup_cons.mp hl
    change cleanupHooks nr wrapper original l (cleanupSyscall nr wrapper original t d) (nr c) = _
    rw [ih _ c hl]
    by_cases hcd : c = d
    · subst hcd
      by_cases hw : t (nr c) = wrapper c <;> simp [cleanupSyscall, hw, hd]
    · have hne : nr c ≠ nr d := nr.injective.ne hcd
      by_cases hw : t (nr d) = wrapper d <;> simp [cleanupSyscall, hw, hcd, hne]

/-- Removals touch no other entry. -/
theorem cleanupHooks_of_ne : ∀ (l : List Call) (t : SysCallTable α) (i : ℕ), (∀ c, nr c ≠ i) →
    cleanupHooks nr wrapper original l t i = t i := by
  intro l
  induction l with
  | nil => intro t i _; rfl
  | cons d l ih =>
    intro t i hi
    change cleanupHooks nr wrapper original l (cleanupSyscall nr wrapper original t d) i = _
    rw [ih _ i hi]
    unfold cleanupSyscall
    split
    · rfl
    · rw [Function.update_of_ne (Ne.symm (hi d))]

end KernelStudy
