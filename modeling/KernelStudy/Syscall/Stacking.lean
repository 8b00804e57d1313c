import KernelStudy.HomeHack.Load
import KernelStudy.Lib.Run

/-!
# Modules stacked on the system call table

`syscall.ko` hooks `open`; `home_hack.ko` hooks `open` and six other calls.  Each
load saves the entry it finds and puts its own function there, so the saved
pointers of one module may lead into the other.  An unload puts the saved entry
back only where the table still holds the module's own function.

Every load makes a new instance, with functions at addresses nothing else has
used.  Instances are never forgotten: what an unloaded one had saved is where
the calls that still reach it would go.  The functions a call passes through
form a stack of instances; loads push, an unload in order pops, and an unload
out of order leaves a stale instance on the stack for good.

## Main definitions

* `Syscall.initModule`, `Syscall.cleanupModule` — the entry points of
  `syscall.c`.
* `World`, `Event`, `step` — instances, loads and unloads.
* `Chain w c a l` — the functions a call entering at `a` passes through.
* `OutOfOrder` — an unload that does not find its own function in the table.

## Main results

* `stacked_load`, `stacked_unload` — loads and unloads keep the stack.
* `hook_stacking` — **the chains after any history of loads and unloads.**
-/

namespace KernelStudy
namespace Syscall

variable {α : Type*} [DecidableEq α] (nr : Call ↪ ℕ)

/-! ### The module `syscall` -/

/-- `init_module`: its result, the table, and `original_call`.  The table is an
array of the kernel, so the test for a null table never succeeds. -/
def initModule (ourSysOpen : α) (table : SysCallTable α) : ℤ × SysCallTable α × α :=
  let originalCall := table (nr .sysOpen)
  (0, Function.update table (nr .sysOpen) ourSysOpen, originalCall)

/-- `cleanup_module`. -/
def cleanupModule (ourSysOpen originalCall : α) (table : SysCallTable α) : SysCallTable α :=
  if table (nr .sysOpen) ≠ ourSysOpen then table
  else Function.update table (nr .sysOpen) originalCall

end Syscall

namespace Stacking

/-! ### Instances -/

/-- The two modules. -/
inductive Module where
  | syscall
  | homeHack
  deriving DecidableEq, Repr

/-- The calls a module hooks. -/
def Module.hooks : Module → List Call
  | .syscall => [.sysOpen]
  | .homeHack => hookOrder

/-- One load of a module. -/
structure Instance (α : Type*) where
  /-- The module. -/
  mod : Module
  /-- Where its functions were placed. -/
  wrapper : Call → α
  /-- The entries it saved. -/
  original : Call → α
  /-- It has not been unloaded. -/
  loaded : Bool

/-- The kernel, and all instances so far, most recent first. -/
structure World (α : Type*) where
  /-- The table and the tasks. -/
  sys : System α
  /-- The instances. -/
  insts : List (Instance α)

/-- A load, with where its functions are placed, or an unload.  A load of
`home_hack` comes with its parameters and the contents of its pointers. -/
inductive Event (α : Type*) where
  | loadSyscall (ourSysOpen : α)
  | loadHomeHack (wrapper : Call → α) (original : Call → α) (fuel : ℕ) (ps : Params)
  | unload (m : Module)

variable {α : Type*}

/-- The record of an instance after module `m` has been unloaded. -/
def Instance.unload (m : Module) (i : Instance α) : Instance α :=
  if i.mod = m then { i with loaded := false } else i

@[simp] theorem unload_mod (m : Module) (i : Instance α) : (i.unload m).mod = i.mod := by
  unfold Instance.unload
  split <;> rfl

@[simp] theorem unload_wrapper (m : Module) (i : Instance α) :
    (i.unload m).wrapper = i.wrapper := by
  unfold Instance.unload
  split <;> rfl

@[simp] theorem unload_original (m : Module) (i : Instance α) :
    (i.unload m).original = i.original := by
  unfold Instance.unload
  split <;> rfl

theorem unload_loaded_iff {m : Module} {i : Instance α} :
    (i.unload m).loaded = true ↔ i.loaded = true ∧ i.mod ≠ m := by
  unfold Instance.unload
  by_cases hm : i.mod = m <;> simp [hm]

theorem unload_of_not_loaded {m : Module} {i : Instance α} (h : i.loaded = false) :
    (i.unload m).loaded = false := by
  unfold Instance.unload
  split
  · rfl
  · exact h

theorem unload_of_ne {m : Module} {i : Instance α} (h : i.mod ≠ m) : i.unload m = i :=
  if_neg h

section Step

variable [DecidableEq α] (nr : Call ↪ ℕ) (pristine : SysCallTable α)

/-- Module `m` may be loaded with its functions at `wrapper`: it is not loaded,
and the addresses are neither an earlier instance's nor those of the kernel's
own functions. -/
def Loadable (w : World α) (m : Module) (wrapper : Call → α) : Prop :=
  (∀ i ∈ w.insts, i.loaded = true → i.mod ≠ m) ∧
    ∀ c ∈ m.hooks, (∀ i ∈ w.insts, ∀ d ∈ i.mod.hooks, i.wrapper d ≠ wrapper c) ∧
      ∀ d ∈ hookOrder, pristine (nr d) ≠ wrapper c

instance (w : World α) (m : Module) (wrapper : Call → α) :
    Decidable (Loadable nr pristine w m wrapper) := inferInstanceAs (Decidable (_ ∧ _))

/-- The table after `cleanup_module` of an instance. -/
def Instance.cleanup (i : Instance α) (table : SysCallTable α) : SysCallTable α :=
  match i.mod with
  | .syscall => Syscall.cleanupModule nr (i.wrapper .sysOpen) (i.original .sysOpen) table
  | .homeHack => HomeHack.cleanupModule nr i.wrapper i.original table

/-- One load or unload.  Only successful loads are events. -/
def step (w : World α) : Event α → Option (World α)
  | .loadSyscall ourSysOpen =>
      if Loadable nr pristine w .syscall fun _ => ourSysOpen then
        let r := Syscall.initModule nr ourSysOpen w.sys.table
        if r.1 = 0 then
          some ⟨⟨r.2.1, w.sys.tasks⟩,
            ⟨.syscall, fun _ => ourSysOpen, fun _ => r.2.2, true⟩ :: w.insts⟩
        else none
      else none
  | .loadHomeHack wrapper original fuel ps =>
      if Loadable nr pristine w .homeHack wrapper then
        match HomeHack.initModule nr wrapper (fun _ => true) fuel ps original w.sys with
        | none => none
        | some (ret, sys, original') =>
            if ret = 0 then some ⟨sys, ⟨.homeHack, wrapper, original', true⟩ :: w.insts⟩ else none
      else none
  | .unload m =>
      match w.insts.find? fun i => i.mod = m ∧ i.loaded = true with
      | none => none
      | some i => some ⟨⟨i.cleanup nr w.sys.table, w.sys.tasks⟩, w.insts.map (Instance.unload m)⟩

/-! ### What a load and an unload do to the table -/

variable {nr pristine}

/-- A load pushes an instance whose functions are in the table and which has
saved what was there. -/
theorem step_load {w w' : World α} {e : Event α} (hs : step nr pristine w e = some w')
    (he : ∀ m, e ≠ .unload m) :
    ∃ i : Instance α, Loadable nr pristine w i.mod i.wrapper ∧ i.loaded = true ∧
      (∀ c ∈ i.mod.hooks, i.original c = w.sys.table (nr c)) ∧
      w'.sys.table = install nr i.wrapper i.mod.hooks w.sys.table ∧ w'.insts = i :: w.insts := by
  cases e with
  | unload m => exact absurd rfl (he m)
  | loadSyscall a =>
    simp only [step] at hs
    split at hs
    · next hl =>
      simp only [Syscall.initModule, if_true, Option.some.injEq] at hs
      subst hs
      refine ⟨⟨.syscall, fun _ => a, fun _ => w.sys.table (nr .sysOpen), true⟩, hl, rfl, ?_, rfl,
        rfl⟩
      intro c hc
      rw [Module.hooks, List.mem_singleton] at hc
      rw [hc]
    · cases hs
  | loadHomeHack wrapper original fuel ps =>
    have hok : ∀ c ∈ hookOrder, fails nr wrapper (fun _ => true) w.sys.table c = false := by
      intro c _
      rfl
    simp only [step, HomeHack.initModule] at hs
    split at hs
    · next hl =>
      split at hs
      · cases hs
      · next ret sys original' hinit =>
        split at hs
        · next hret =>
          rw [Option.some.injEq] at hs
          subst hs hret
          split at hinit
          · cases hinit
          · split at hinit
            · cases hinit
            · simp only [Option.some.injEq, Prod.mk.injEq] at hinit
              obtain ⟨-, rfl, rfl⟩ := hinit
              refine ⟨⟨.homeHack, wrapper, _, true⟩, hl, rfl, ?_, ?_, rfl⟩
              · intro c _
                dsimp only
                rw [addHooks_original _ _ nodup_hookOrder hok, if_pos (mem_hookOrder c)]
              · dsimp only
                rw [addHooks_table _ _ nodup_hookOrder]
                rfl
        · cases hs
    · cases hs

theorem nodup_hooks (m : Module) : m.hooks.Nodup := by cases m <;> decide

/-- The table after `cleanup_module`. -/
theorem cleanup_eq (i : Instance α) (t : SysCallTable α) :
    i.cleanup nr t = cleanupHooks nr i.wrapper i.original i.mod.hooks t := by
  unfold Instance.cleanup
  cases h : i.mod with
  | syscall => rfl
  | homeHack => rfl

/-- An unload runs `cleanup_module` of the loaded instance. -/
theorem step_unload {w w' : World α} {m : Module}
    (hs : step nr pristine w (.unload m) = some w') :
    ∃ i ∈ w.insts, i.mod = m ∧ i.loaded = true ∧
      w'.sys.table = cleanupHooks nr i.wrapper i.original m.hooks w.sys.table ∧
      w'.insts = w.insts.map (Instance.unload m) := by
  simp only [step] at hs
  split at hs
  · cases hs
  · next i hi =>
    rw [Option.some.injEq] at hs
    subst hs
    have hprop := List.find?_some hi
    simp only [decide_eq_true_eq] at hprop
    obtain ⟨rfl, hload⟩ := hprop
    exact ⟨i, List.mem_of_find?_eq_some hi, rfl, hload, cleanup_eq i _, rfl⟩

end Step

/-! ### The chain of a call -/

/-- The functions a call passes through when it enters at `a`: a function of the
kernel ends the chain, a wrapper passes the call on to what its instance has
saved. -/
inductive Chain (w : World α) (c : Call) : α → List α → Prop where
  | kernel {a : α} (h : ∀ i ∈ w.insts, c ∈ i.mod.hooks → i.wrapper c ≠ a) : Chain w c a [a]
  | wrapper {i : Instance α} {l : List α} (hi : i ∈ w.insts) (hc : c ∈ i.mod.hooks)
      (h : Chain w c (i.original c) l) : Chain w c (i.wrapper c) (i.wrapper c :: l)

/-- `a` is a function of an instance that has been unloaded. -/
def Stale (w : World α) (c : Call) (a : α) : Prop :=
  ∃ i ∈ w.insts, i.loaded = false ∧ c ∈ i.mod.hooks ∧ i.wrapper c = a

/-- An instance that hooks the call is unloaded while the entry does not hold its
wrapper. -/
def OutOfOrder (nr : Call ↪ ℕ) (c : Call) (w : World α) : Event α → Prop
  | .unload m => ∃ i ∈ w.insts, i.mod = m ∧ i.loaded = true ∧ c ∈ m.hooks ∧
      w.sys.table (nr c) ≠ i.wrapper c
  | _ => False

/-- The instances `st` are linked: the entry `a` is the first one's wrapper, each
has saved the next one's, and the last has saved the kernel's function. -/
def Linked (k : α) (c : Call) : α → List (Instance α) → Prop
  | a, [] => a = k
  | a, i :: st => a = i.wrapper c ∧ Linked k c (i.original c) st

/-- `st` is the stack of a call with entry `a` and kernel function `k`.  `b` says
whether an unload out of order has happened. -/
structure IsStack (insts : List (Instance α)) (k a : α) (c : Call) (b : Prop)
    (st : List (Instance α)) : Prop where
  /-- The order of the stack is the order of the loads. -/
  sublist : st.Sublist insts
  /-- Its instances hook the call. -/
  hooks : ∀ i ∈ st, c ∈ i.mod.hooks
  /-- They lead from the entry to the kernel. -/
  linked : Linked k c a st
  /-- Every loaded instance that hooks the call is on it. -/
  all : ∀ i ∈ insts, i.loaded = true → c ∈ i.mod.hooks → i ∈ st
  /-- An unloaded one is on it only after an unload out of order. -/
  stale_iff : b ↔ ∃ i ∈ st, i.loaded = false

/-- The invariant of one call. -/
structure Stacked (nr : Call ↪ ℕ) (pristine : SysCallTable α) (c : Call) (b : Prop)
    (w : World α) : Prop where
  /-- Entries of other calls are untouched. -/
  others : ∀ i, (∀ d, nr d ≠ i) → w.sys.table i = pristine i
  /-- Instances do not share a function. -/
  fresh : w.insts.Pairwise fun i j => c ∈ i.mod.hooks → c ∈ j.mod.hooks → i.wrapper c ≠ j.wrapper c
  /-- Nor is a function of theirs the kernel's. -/
  notKernel : ∀ i ∈ w.insts, c ∈ i.mod.hooks → i.wrapper c ≠ pristine (nr c)
  /-- A module is loaded once at a time. -/
  once : ∀ i ∈ w.insts, ∀ j ∈ w.insts, i.loaded = true → j.loaded = true → i.mod = j.mod → i = j
  /-- The instances a call passes through. -/
  stack : ∃ st, IsStack w.insts (pristine (nr c)) (w.sys.table (nr c)) c b st

variable {nr : Call ↪ ℕ} {pristine : SysCallTable α} {c : Call} {b : Prop} {w w' : World α}

/-- Two instances with the same function are one. -/
theorem Stacked.eq_of_wrapper_eq (h : Stacked nr pristine c b w) {i j : Instance α}
    (hi : i ∈ w.insts) (hj : j ∈ w.insts) (hci : c ∈ i.mod.hooks) (hcj : c ∈ j.mod.hooks)
    (heq : i.wrapper c = j.wrapper c) : i = j := by
  by_contra hne
  have hsymm : Std.Symm fun i j : Instance α =>
      c ∈ i.mod.hooks → c ∈ j.mod.hooks → i.wrapper c ≠ j.wrapper c :=
    ⟨fun i j hij hcj hci => (hij hci hcj).symm⟩
  exact h.fresh.forall hi hj hne hci hcj heq

/-! ### Pushing and popping -/

section Stack

variable {insts st : List (Instance α)} {k a : α} {i : Instance α} {m : Module}

/-- Pushing a loaded instance that has saved the entry. -/
theorem IsStack.push (h : IsStack insts k a c b st) (hload : i.loaded = true)
    (hci : c ∈ i.mod.hooks) (horig : i.original c = a) :
    IsStack (i :: insts) k (i.wrapper c) c b (i :: st) where
  sublist := h.sublist.cons_cons i
  hooks := List.forall_mem_cons.mpr ⟨hci, h.hooks⟩
  linked := ⟨rfl, horig ▸ h.linked⟩
  all := by
    intro j hj hjl hcj
    rcases List.mem_cons.mp hj with rfl | hj'
    · exact List.mem_cons_self
    · exact List.mem_cons_of_mem i (h.all j hj' hjl hcj)
  stale_iff := by simpa [hload] using h.stale_iff

/-- A load of a module that does not hook the call. -/
theorem IsStack.skip (h : IsStack insts k a c b st) (hci : c ∉ i.mod.hooks) :
    IsStack (i :: insts) k a c b st where
  sublist := h.sublist.cons i
  hooks := h.hooks
  linked := h.linked
  all := by
    intro j hj hjl hcj
    rcases List.mem_cons.mp hj with rfl | hj'
    · exact absurd hcj hci
    · exact h.all j hj' hjl hcj
  stale_iff := h.stale_iff

/-- The links do not depend on who is still loaded. -/
theorem linked_map_unload : ∀ {st : List (Instance α)} {a : α},
    Linked k c a st → Linked k c a (st.map (Instance.unload m)) := by
  intro st
  induction st with
  | nil => intro a h; exact h
  | cons i st ih =>
    rintro a ⟨ha, hst⟩
    refine ⟨by rw [unload_wrapper]; exact ha, ?_⟩
    rw [unload_original]
    exact ih hst

/-- Unloading a module without taking anything off the stack. -/
theorem IsStack.unload {b' : Prop} (h : IsStack insts k a c b st)
    (hb : b' ↔ ∃ j ∈ st, (j.unload m).loaded = false) :
    IsStack (insts.map (Instance.unload m)) k a c b' (st.map (Instance.unload m)) where
  sublist := h.sublist.map _
  hooks := by
    intro j hj
    obtain ⟨j', hj', rfl⟩ := List.mem_map.mp hj
    rw [unload_mod]
    exact h.hooks j' hj'
  linked := linked_map_unload h.linked
  all := by
    intro j hj hjl hcj
    obtain ⟨j', hj', rfl⟩ := List.mem_map.mp hj
    rw [unload_mod] at hcj
    exact List.mem_map_of_mem (h.all j' hj' (unload_loaded_iff.mp hjl).1 hcj)
  stale_iff := by
    rw [hb]
    simp

/-- Taking an instance off the top, as it is unloaded. -/
theorem IsStack.pop (h : IsStack insts k a c b (i :: st)) (hload : i.loaded = true)
    (honce : ∀ j ∈ st, j.mod = i.mod → j.loaded = false) :
    IsStack (insts.map (Instance.unload i.mod)) k (i.original c) c b
      (st.map (Instance.unload i.mod)) where
  sublist := ((List.sublist_cons_self i st).trans h.sublist).map _
  hooks := by
    intro j hj
    obtain ⟨j', hj', rfl⟩ := List.mem_map.mp hj
    rw [unload_mod]
    exact h.hooks j' (List.mem_cons_of_mem i hj')
  linked := linked_map_unload h.linked.2
  all := by
    intro j hj hjl hcj
    obtain ⟨j', hj', rfl⟩ := List.mem_map.mp hj
    rw [unload_mod] at hcj
    obtain ⟨hl, hne⟩ := unload_loaded_iff.mp hjl
    rcases List.mem_cons.mp (h.all j' hj' hl hcj) with rfl | hst
    · exact absurd rfl hne
    · exact List.mem_map_of_mem hst
  stale_iff := by
    rw [h.stale_iff]
    constructor
    · rintro ⟨j, hj, hjl⟩
      rcases List.mem_cons.mp hj with rfl | hj'
      · rw [hload] at hjl
        cases hjl
      · exact ⟨_, List.mem_map_of_mem hj', unload_of_not_loaded hjl⟩
    · rintro ⟨j, hj, hjl⟩
      obtain ⟨j', hj', rfl⟩ := List.mem_map.mp hj
      refine ⟨j', List.mem_cons_of_mem i hj', ?_⟩
      by_cases hmod : j'.mod = i.mod
      · exact honce j' hj' hmod
      · rw [unload_of_ne hmod] at hjl
        exact hjl

end Stack

/-- **A load keeps the invariant**: the new instance goes on the stacks of the
calls it hooks. -/
theorem stacked_load [DecidableEq α] {e : Event α} (h : Stacked nr pristine c b w)
    (hs : step nr pristine w e = some w') (he : ∀ m, e ≠ .unload m) :
    Stacked nr pristine c b w' := by
  obtain ⟨i, ⟨hfree, hplaced⟩, hload, horig, htable, hinsts⟩ := step_load hs he
  obtain ⟨st, hst⟩ := h.stack
  refine ⟨?_, ?_, ?_, ?_, ?_⟩
  · intro k hk
    rw [htable, install_of_ne _ _ _ hk]
    exact h.others k hk
  · rw [hinsts, List.pairwise_cons]
    refine ⟨?_, h.fresh⟩
    intro j hj hci hcj
    exact ((hplaced c hci).1 j hj c hcj).symm
  · rw [hinsts, List.forall_mem_cons]
    exact ⟨fun hci => ((hplaced c hci).2 c (mem_hookOrder c)).symm, h.notKernel⟩
  · rw [hinsts]
    intro j hj k hk hjl hkl hmod
    rcases List.mem_cons.mp hj with rfl | hj'
    · rcases List.mem_cons.mp hk with rfl | hk'
      · rfl
      · exact absurd hmod.symm (hfree k hk' hkl)
    · rcases List.mem_cons.mp hk with rfl | hk'
      · exact absurd hmod (hfree j hj' hjl)
      · exact h.once j hj' k hk' hjl hkl hmod
  · rw [hinsts, htable, install_nr]
    by_cases hci : c ∈ i.mod.hooks
    · rw [if_pos hci]
      exact ⟨i :: st, hst.push hload hci (horig c hci)⟩
    · rw [if_neg hci]
      exact ⟨st, hst.skip hci⟩

/-- **An unload keeps the invariant**: in order it takes the instance off the
stack, out of order it leaves a stale one. -/
theorem stacked_unload [DecidableEq α] {m : Module} (h : Stacked nr pristine c b w)
    (hs : step nr pristine w (.unload m) = some w') :
    Stacked nr pristine c (b ∨ OutOfOrder nr c w (.unload m)) w' := by
  obtain ⟨i, hi, rfl, hload, htable, hinsts⟩ := step_unload hs
  obtain ⟨st, hst⟩ := h.stack
  have honce : ∀ j ∈ w.insts, j.mod = i.mod → j.loaded = true → j = i :=
    fun j hj hmod hjl => h.once j hj i hi hjl hload hmod
  refine ⟨?_, ?_, ?_, ?_, ?_⟩
  · intro k hk
    rw [htable, cleanupHooks_of_ne _ _ _ hk]
    exact h.others k hk
  · rw [hinsts, List.pairwise_map]
    refine h.fresh.imp ?_
    intro j k hjk
    simpa using hjk
  · rw [hinsts]
    intro j hj
    obtain ⟨j', hj', rfl⟩ := List.mem_map.mp hj
    simpa using h.notKernel j' hj'
  · rw [hinsts]
    intro j hj k hk hjl hkl hmod
    obtain ⟨j', hj', rfl⟩ := List.mem_map.mp hj
    obtain ⟨k', hk', rfl⟩ := List.mem_map.mp hk
    rw [unload_mod, unload_mod] at hmod
    rw [h.once j' hj' k' hk' (unload_loaded_iff.mp hjl).1 (unload_loaded_iff.mp hkl).1 hmod]
  · rw [hinsts, htable, cleanupHooks_nr _ _ _ (nodup_hooks i.mod)]
    by_cases hci : c ∈ i.mod.hooks
    · have hmem := hst.all i hi hload hci
      by_cases htop : w.sys.table (nr c) = i.wrapper c
      · -- in order: the instance is the top of the stack
        rw [if_pos ⟨hci, htop⟩]
        have hno : ¬ OutOfOrder nr c w (.unload i.mod) := by
          rintro ⟨j, hj, hmod, hjl, -, hne⟩
          rw [honce j hj hmod hjl] at hne
          exact hne htop
        rw [or_iff_left hno]
        cases st with
        | nil => exact absurd hmem List.not_mem_nil
        | cons j st =>
          have hsub := hst.sublist.subset
          have hji : j = i := by
            refine h.eq_of_wrapper_eq (hsub List.mem_cons_self) hi
              (hst.hooks j List.mem_cons_self) hci ?_
            rw [← hst.linked.1, htop]
          subst hji
          refine ⟨_, hst.pop hload ?_⟩
          intro k hk hmod
          by_contra hkl
          -- a second loaded instance of the module would be the same one, twice on the stack
          have hkj := honce k (hsub (List.mem_cons_of_mem j hk)) hmod (by simpa using hkl)
          subst hkj
          have hfresh := h.fresh.sublist hst.sublist
          exact (List.pairwise_cons.mp hfresh).1 k hk hci hci rfl
      · -- out of order: the instance stays behind
        rw [if_neg fun hc => htop hc.2]
        refine ⟨_, hst.unload (iff_of_true (Or.inr ⟨i, hi, rfl, hload, hci, htop⟩) ?_)⟩
        exact ⟨i, hmem, by simp [Instance.unload]⟩
    · -- the module does not hook the call, so it is not on the stack
      rw [if_neg fun hc => hci hc.1]
      have hno : ¬ OutOfOrder nr c w (.unload i.mod) := fun ⟨_, _, _, _, hc, _⟩ => hci hc
      rw [or_iff_left hno]
      refine ⟨_, hst.unload ?_⟩
      rw [hst.stale_iff]
      refine exists_congr fun j => and_congr_right fun hj => ?_
      have hmod : j.mod ≠ i.mod := by
        intro hmod
        exact hci (hmod ▸ hst.hooks j hj)
      rw [unload_of_ne hmod]

theorem stacked_step [DecidableEq α] (b : Prop) (w : World α) (e : Event α) (w' : World α)
    (h : Stacked nr pristine c b w) (hs : step nr pristine w e = some w') :
    Stacked nr pristine c (b ∨ OutOfOrder nr c w e) w' := by
  cases e with
  | unload m => exact stacked_unload h hs
  | loadSyscall a =>
    rw [show (b ∨ OutOfOrder nr c w (.loadSyscall a)) = b from propext (or_iff_left id)]
    exact stacked_load h hs nofun
  | loadHomeHack wrapper original fuel ps =>
    rw [show (b ∨ OutOfOrder nr c w (.loadHomeHack wrapper original fuel ps)) = b from
      propext (or_iff_left id)]
    exact stacked_load h hs nofun

/-! ### Reading the chain off the stack -/

theorem chain_of_linked (h : Stacked nr pristine c b w) : ∀ {st : List (Instance α)} {a : α},
    st.Sublist w.insts → (∀ i ∈ st, c ∈ i.mod.hooks) → Linked (pristine (nr c)) c a st →
      Chain w c a (st.map (fun i => i.wrapper c) ++ [pristine (nr c)]) := by
  intro st
  induction st with
  | nil =>
    intro a _ _ hl
    subst hl
    exact .kernel h.notKernel
  | cons i st ih =>
    rintro a hsub hhook ⟨rfl, hl⟩
    refine .wrapper (hsub.subset List.mem_cons_self) (hhook i List.mem_cons_self) ?_
    exact ih ((List.sublist_cons_self i st).trans hsub)
      (fun j hj => hhook j (List.mem_cons_of_mem i hj)) hl

/-- A call has one chain. -/
theorem chain_unique (h : Stacked nr pristine c b w) {a : α} {l : List α} (hl : Chain w c a l) :
    ∀ {l' : List α}, Chain w c a l' → l' = l := by
  induction hl with
  | kernel hk =>
    intro l' hl'
    cases hl' with
    | kernel _ => rfl
    | wrapper hi hc _ => exact absurd rfl (hk _ hi hc)
  | @wrapper i l hi hc hrest ih =>
    intro l' hl'
    generalize ha : i.wrapper c = a at hl'
    cases hl' with
    | kernel hk => exact absurd ha (hk i hi hc)
    | @wrapper j l' hj hcj hrest' =>
      have hij := h.eq_of_wrapper_eq hi hj hc hcj ha
      subst hij
      rw [ih hrest']

/-- The chain is stale exactly when an unloaded instance is on the stack. -/
theorem exists_stale_iff {st : List (Instance α)} (h : Stacked nr pristine c b w)
    (hst : IsStack w.insts (pristine (nr c)) (w.sys.table (nr c)) c b st) :
    (∃ a ∈ st.map (fun i => i.wrapper c) ++ [pristine (nr c)], Stale w c a) ↔
      ∃ i ∈ st, i.loaded = false := by
  constructor
  · rintro ⟨a, ha, i, hi, hload, hci, rfl⟩
    rcases List.mem_append.mp ha with ha | ha
    · obtain ⟨j, hj, hij⟩ := List.mem_map.mp ha
      have hji := h.eq_of_wrapper_eq (hst.sublist.subset hj) hi (hst.hooks j hj) hci hij
      exact ⟨j, hj, hji ▸ hload⟩
    · rw [List.mem_singleton] at ha
      exact absurd ha (h.notKernel i hi hci)
  · rintro ⟨i, hi, hload⟩
    refine ⟨i.wrapper c, List.mem_append_left _ (List.mem_map_of_mem hi), i, ?_⟩
    exact ⟨hst.sublist.subset hi, hload, hst.hooks i hi, rfl⟩

/-- Without stale instances the stack is the loaded ones that hook the call. -/
theorem stack_eq_filter {st : List (Instance α)} (h : Stacked nr pristine c b w)
    (hst : IsStack w.insts (pristine (nr c)) (w.sys.table (nr c)) c b st) (hb : ¬ b) :
    st = w.insts.filter fun i => i.loaded ∧ c ∈ i.mod.hooks := by
  have hload : ∀ i ∈ st, i.loaded = true := by
    intro i hi
    by_contra hl
    exact hb (hst.stale_iff.mpr ⟨i, hi, by simpa using hl⟩)
  have hsub : st.Sublist (w.insts.filter fun i => c ∈ i.mod.hooks) := by
    have := hst.sublist.filter fun i => c ∈ i.mod.hooks
    rwa [List.filter_eq_self.mpr fun i hi => by simpa using hst.hooks i hi] at this
  have hsub' : (w.insts.filter fun i => i.loaded ∧ c ∈ i.mod.hooks).Sublist
      (w.insts.filter fun i => c ∈ i.mod.hooks) := by
    refine List.monotone_filter_right w.insts fun i hi => ?_
    simp only [decide_eq_true_eq] at hi ⊢
    exact hi.2
  have hnodup : (w.insts.filter fun i => c ∈ i.mod.hooks).Nodup := by
    rw [List.Nodup, List.pairwise_filter]
    refine h.fresh.imp fun {i j} hij hci hcj heq => ?_
    simp only [decide_eq_true_eq] at hci hcj
    exact hij hci hcj (by rw [heq])
  refine (hnodup.perm_iff_eq_of_sublist hsub hsub').mp ?_
  rw [List.perm_ext_iff_of_nodup (hnodup.sublist hsub) (hnodup.sublist hsub')]
  intro i
  simp only [List.mem_filter, decide_eq_true_eq]
  constructor
  · intro hi
    exact ⟨hst.sublist.subset hi, hload i hi, hst.hooks i hi⟩
  · rintro ⟨hi, hl, hci⟩
    exact hst.all i hi hl hci

/-- **Stacking of system call hooks.**  After any history of loads and unloads
from a pristine table: no other entry has changed; a call's chain is stale
exactly when an instance that hooks it was once unloaded out of order; and if
that never happened, the chain is the wrappers of the loaded instances, most
recent first, and then the kernel's function. -/
theorem hook_stacking [DecidableEq α] (nr : Call ↪ ℕ) (pristine : SysCallTable α)
    (tasks : TaskHeap) (es : List (Event α)) (w : World α)
    (hr : run (step nr pristine) ⟨⟨pristine, tasks⟩, []⟩ es = some w) :
    (∀ i, (∀ c, nr c ≠ i) → w.sys.table i = pristine i) ∧
    ∀ c, ∃ l, Chain w c (w.sys.table (nr c)) l ∧
      (∀ l', Chain w c (w.sys.table (nr c)) l' → l' = l) ∧
      ((∃ a ∈ l, Stale w c a) ↔
        Sometime (step nr pristine) (OutOfOrder nr c) ⟨⟨pristine, tasks⟩, []⟩ es) ∧
      (¬ Sometime (step nr pristine) (OutOfOrder nr c) ⟨⟨pristine, tasks⟩, []⟩ es →
        l = (w.insts.filter fun i => i.loaded ∧ c ∈ i.mod.hooks).map (fun i => i.wrapper c) ++
          [pristine (nr c)]) := by
  have hinit : ∀ c, Stacked nr pristine c False ⟨⟨pristine, tasks⟩, []⟩ := by
    intro c
    refine ⟨fun _ _ => rfl, List.Pairwise.nil, by simp, by simp, [], ?_⟩
    exact ⟨List.Sublist.refl _, by simp, rfl, by simp, by simp⟩
  have hfinal : ∀ c, Stacked nr pristine c
      (Sometime (step nr pristine) (OutOfOrder nr c) ⟨⟨pristine, tasks⟩, []⟩ es) w := by
    intro c
    have := run_invariant_sometime (J := Stacked nr pristine c) stacked_step es False _ w
      (hinit c) hr
    rwa [false_or] at this
  refine ⟨(hfinal .sysOpen).others, fun c => ?_⟩
  obtain ⟨st, hst⟩ := (hfinal c).stack
  have hchain := chain_of_linked (hfinal c) hst.sublist hst.hooks hst.linked
  refine ⟨_, hchain, fun l' hl' => chain_unique (hfinal c) hchain hl', ?_, ?_⟩
  · rw [exists_stale_iff (hfinal c) hst, ← hst.stale_iff]
  · intro hb
    rw [stack_eq_filter (hfinal c) hst hb]

/-- `syscall` is loaded, and `home_hack` on top of it. -/
def bothLoads : List (Event ℕ) :=
  [.loadSyscall 1000,
    .loadHomeHack (fun c => 2000 + i386Nr c) (fun _ => 0) 2 (Marking.onePair 4232 1)]

/-- With both modules loaded, `open` goes through `home_hack`, then `syscall`,
then the kernel. -/
theorem open_chain_both_loaded :
    ∃ w, run (step i386Nr id) ⟨⟨id, Marking.twoRing 0 4232⟩, []⟩ bothLoads = some w ∧
      Chain w .sysOpen (w.sys.table 5) [2005, 1000, 5] := by
  have hrun : (run (step i386Nr id) ⟨⟨id, Marking.twoRing 0 4232⟩, []⟩ bothLoads).map
      (fun w => (w.insts.filter fun i => i.loaded ∧ .sysOpen ∈ i.mod.hooks).map
        fun i => i.wrapper .sysOpen) = some [2005, 1000] := by decide
  obtain ⟨w, hr, hw⟩ := Option.map_eq_some_iff.mp hrun
  obtain ⟨l, hchain, -, -, hl⟩ := (hook_stacking i386Nr id _ bothLoads w hr).2 .sysOpen
  refine ⟨w, hr, ?_⟩
  rw [hw] at hl
  have hnever : ¬ Sometime (step i386Nr id) (OutOfOrder i386Nr .sysOpen)
      ⟨⟨id, Marking.twoRing 0 4232⟩, []⟩ bothLoads := by
    simp [Sometime, bothLoads, OutOfOrder]
  rw [hl hnever] at hchain
  exact hchain

end Stacking
end KernelStudy
