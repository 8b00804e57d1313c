import KernelStudy.Lib.Paging
import KernelStudy.Syscall.Stacking

/-!
# Hooking through a second mapping

The page of the system call table is read-only, so `kmap.c` does not store to the
table as `syscall.c` does.  It maps the page of the entry a second time, and
stores to the entry there.  `cleanup_module` does so with the address of the
entry as it is.  `init_module` computes that address on its first line, before it
has looked the table up, from a variable that is still null: it maps the page of
address 20 and stores there.

## Main definitions

* `Kmap.initModule`, `Kmap.cleanupModule` — the entry points of `kmap.c`.
* `Kmap.Placed` — the table lies in the direct map, and the alias does not.
* `Kmap.view` — the system call table, as `syscall.c` sees it.
* `Kmap.Installs` — a load does what that of `syscall.c` does.

## Main results

* `Kmap.cleanupModule_eq`, `Kmap.initModule_eq` — what the two functions do.
* `Kmap.cleanupModule_spec` — **the removal is that of `syscall.c`.**
* `Kmap.installs_iff` — **the installation hardly ever is.**
-/

namespace KernelStudy
namespace Kmap

/-! ### The module `kmap` -/

/-- The direct map of the kernel, from `PAGE_OFFSET` on. -/
def kernelMap : DirectMap := ⟨0xC0000000#32, by decide⟩

/-- Physical memory and the variables of the module. -/
structure State where
  /-- Physical memory. -/
  phys : Phys
  /-- `sys_call_table`. -/
  sysCallTable : Addr
  /-- `original_call`. -/
  originalCall : BitVec 32

/-- `&sys_call_table[__NR_open]`. -/
def openEntry (sysCallTable : Addr) : Addr :=
  sysCallTable + BitVec.ofNat 32 (4 * i386Nr .sysOpen)

/-- `init_module`: its result, the state and the words it has accessed.  `lookup`
is the answer of `kallsyms_lookup_name`, and `initTarget` that of `vmap`.  Some of
the words are read only to be printed. -/
def initModule (ourSysOpen : BitVec 32) (lookup initTarget : Addr) (s : State) :
    ℤ × State × List Access :=
  let openAddr := openEntry s.sysCallTable
  let sysCallTable := lookup
  if sysCallTable = 0#32 then (1, { s with sysCallTable := sysCallTable }, [])
  else
    let pg := kernelMap.virtToPage openAddr
    let vm := Vm.vmap ⟨s.phys, none, []⟩ initTarget pg
    let target := initTarget + (openAddr &&& 0xFFF#32)
    let original := vm.load kernelMap (openEntry sysCallTable)
    let originalCall := original.1
    let vm := (original.2.load kernelMap target).2
    let vm := vm.store kernelMap target ourSysOpen
    let vm := (vm.load kernelMap (openEntry sysCallTable)).2
    let vm := (vm.load kernelMap target).2
    let vm := (vm.load kernelMap (openEntry sysCallTable)).2
    let vm := vm.vunmap
    let vm := (vm.load kernelMap (openEntry sysCallTable)).2
    (0, ⟨vm.phys, sysCallTable, originalCall⟩, vm.trace)

/-- `cleanup_module`: physical memory, and the words it has accessed. -/
def cleanupModule (ourSysOpen : BitVec 32) (initTarget : Addr) (s : State) : Phys × List Access :=
  let openAddr := openEntry s.sysCallTable
  let pg := kernelMap.virtToPage openAddr
  let vm := Vm.vmap ⟨s.phys, none, []⟩ initTarget pg
  let target := initTarget + (openAddr &&& 0xFFF#32)
  let vm := (vm.load kernelMap (openEntry s.sysCallTable)).2
  let vm := (vm.load kernelMap target).2
  let found := vm.load kernelMap target
  let vm := if found.1 ≠ ourSysOpen then found.2
    else found.2.store kernelMap target s.originalCall
  let vm := vm.vunmap
  (vm.phys, vm.trace)

/-! ### Where the table and the alias lie -/

/-- The layout of the kernel's address space: the direct map ends at
`highMemory`, and `vmap` hands out addresses from `vmallocStart` on. -/
structure Layout where
  /-- `high_memory`. -/
  highMemory : Addr
  /-- `VMALLOC_START`. -/
  vmallocStart : Addr
  le : highMemory ≤ vmallocStart

/-- The table starts at a multiple of four in the direct map, its entry for
`open` included, and the alias at a page from `vmallocStart` on. -/
structure Placed (l : Layout) (table initTarget : Addr) : Prop where
  aligned : table.toNat % 4 = 0
  low : kernelMap.offset ≤ table
  high : table.toNat + 24 ≤ l.highMemory.toNat
  page : initTarget.toNat % pageSize = 0
  above : l.vmallocStart ≤ initTarget

variable {l : Layout} {table initTarget : Addr}

theorem openEntry_eq (table : Addr) : openEntry table = table + 20#32 := rfl

theorem toNat_openEntry (h : Placed l table initTarget) :
    (openEntry table).toNat = table.toNat + 20 := by
  have hhigh := h.high
  have := l.highMemory.isLt
  rw [openEntry_eq]
  bv_omega

theorem Placed.entry_aligned (h : Placed l table initTarget) :
    (openEntry table).toNat % 4 = 0 := by
  have := h.aligned
  rw [toNat_openEntry h]
  omega

/-- The entry is not reached through the alias. -/
theorem Placed.not_inWindow (h : Placed l table initTarget) {i : ℕ} (hi : i < 4) :
    ¬ InWindow initTarget pageSize (openEntry table + BitVec.ofNat 32 i) := by
  have hlow : 0xC0000000 ≤ table.toNat := h.low
  have hhigh := h.high
  have hle : l.highMemory.toNat ≤ l.vmallocStart.toNat := l.le
  have habove : l.vmallocStart.toNat ≤ initTarget.toNat := h.above
  have hpage : initTarget.toNat % 4096 = 0 := h.page
  intro hin
  have hin' : (openEntry table + BitVec.ofNat 32 i - initTarget).toNat < 4096 := hin
  rw [openEntry_eq] at hin'
  bv_omega

/-- So it is read where the direct map has it, whatever is mapped there. -/
theorem Placed.load_entry (h : Placed l table initTarget) (m : Phys) (frame : BitVec 32)
    (t : List Access) :
    (Vm.mk m (some ⟨initTarget, frame⟩) t).load kernelMap (openEntry table) =
      (word m (kernelMap.pa (openEntry table)),
        ⟨m, some ⟨initTarget, frame⟩, t ++ [.read (kernelMap.pa (openEntry table))]⟩) := by
  apply Vm.load_eq
  apply Vm.maps_linear
  intro al hal i hi
  rw [← Option.some.inj hal]
  exact h.not_inWindow hi

theorem load_entry_unmapped (table : Addr) (m : Phys) (t : List Access) :
    (Vm.mk m none t).load kernelMap (openEntry table) =
      (word m (kernelMap.pa (openEntry table)),
        ⟨m, none, t ++ [.read (kernelMap.pa (openEntry table))]⟩) := by
  apply Vm.load_eq
  apply Vm.maps_linear
  intro al hal
  cases hal

/-! ### The removal -/

variable {ourSysOpen : BitVec 32} {s : State}

/-- The physical address of the entry for `open`. -/
def entryPa (table : Addr) : Addr := kernelMap.pa (openEntry table)

/-- **What `cleanup_module` does**: all its accesses are to the entry. -/
theorem cleanupModule_eq (h : Placed l s.sysCallTable initTarget) :
    cleanupModule ourSysOpen initTarget s =
      if word s.phys (entryPa s.sysCallTable) = ourSysOpen then
        (putWord s.phys (entryPa s.sysCallTable) s.originalCall,
          List.replicate 3 (.read (entryPa s.sysCallTable)) ++
            [.write (entryPa s.sysCallTable)])
      else (s.phys, List.replicate 3 (.read (entryPa s.sysCallTable))) := by
  unfold cleanupModule Vm.vmap
  dsimp only
  rw [h.load_entry, Vm.load_alias h.entry_aligned, Vm.load_alias h.entry_aligned]
  dsimp only
  by_cases hfound : word s.phys (kernelMap.pa (openEntry s.sysCallTable)) = ourSysOpen
  · rw [if_neg (not_not.mpr hfound), Vm.store_alias h.entry_aligned, entryPa, if_pos hfound]
    rfl
  · rw [if_pos hfound, entryPa, if_neg hfound]
    rfl

/-- The system call table as `syscall.c` sees it. -/
def view (m : Phys) (table : Addr) : SysCallTable (BitVec 32) :=
  fun i => word m (kernelMap.pa (table + BitVec.ofNat 32 (4 * i)))

/-- A store to the entry of `open` is an update of the table. -/
theorem view_putWord (m : Phys) (table : Addr) (w : BitVec 32) {i : ℕ} (hi : i < 2 ^ 30) :
    view (putWord m (entryPa table) w) table i =
      Function.update (view m table) (i386Nr .sysOpen) w i := by
  by_cases hopen : i = i386Nr .sysOpen
  · subst hopen
    rw [Function.update_self]
    exact word_putWord m (entryPa table) w
  · rw [Function.update_of_ne hopen]
    have hne : i ≠ 5 := hopen
    have hdist : kernelMap.pa (table + BitVec.ofNat 32 (4 * i)) - entryPa table =
        BitVec.ofNat 32 (4 * i) - 20#32 := by
      rw [entryPa, openEntry_eq]
      unfold DirectMap.pa
      bv_omega
    apply word_putWord_of_ne
    · intro heq
      rw [heq, BitVec.sub_self] at hdist
      bv_omega
    · rw [hdist]
      bv_omega

/-- **The removal through the alias is that of `syscall.c`.**  Every access of
`cleanup_module` is to the word of the entry; it is written exactly when it holds
`our_sys_open`, and then gets `original_call`; no other byte of memory changes;
and the table afterwards is the one `syscall.c` would leave. -/
theorem cleanupModule_spec (ourSysOpen : BitVec 32) (s : State)
    (h : Placed l s.sysCallTable initTarget) :
    (∀ acc ∈ (cleanupModule ourSysOpen initTarget s).2, acc.addr = entryPa s.sysCallTable) ∧
    .read (entryPa s.sysCallTable) ∈ (cleanupModule ourSysOpen initTarget s).2 ∧
    (.write (entryPa s.sysCallTable) ∈ (cleanupModule ourSysOpen initTarget s).2 ↔
      word s.phys (entryPa s.sysCallTable) = ourSysOpen) ∧
    word (cleanupModule ourSysOpen initTarget s).1 (entryPa s.sysCallTable) =
      (if word s.phys (entryPa s.sysCallTable) = ourSysOpen then s.originalCall
        else word s.phys (entryPa s.sysCallTable)) ∧
    (∀ x, ¬ InWindow (entryPa s.sysCallTable) 4 x →
      (cleanupModule ourSysOpen initTarget s).1 x = s.phys x) ∧
    ∀ i < 2 ^ 30, view (cleanupModule ourSysOpen initTarget s).1 s.sysCallTable i =
      Syscall.cleanupModule i386Nr ourSysOpen s.originalCall (view s.phys s.sysCallTable) i := by
  rw [cleanupModule_eq h]
  by_cases hfound : word s.phys (entryPa s.sysCallTable) = ourSysOpen
  · have hview : ¬ view s.phys s.sysCallTable (i386Nr .sysOpen) ≠ ourSysOpen := not_not.mpr hfound
    rw [if_pos hfound, if_pos hfound, Syscall.cleanupModule, if_neg hview]
    refine ⟨?_, by simp, by simp [hfound], word_putWord _ _ _, ?_, ?_⟩
    · intro acc hacc
      simp only [List.mem_append, List.mem_replicate, List.mem_singleton] at hacc
      rcases hacc with ⟨-, rfl⟩ | rfl
      · rfl
      · rfl
    · intro x hx
      exact putWord_of_not_inWindow hx
    · intro i hi
      exact view_putWord _ _ _ hi
  · have hview : view s.phys s.sysCallTable (i386Nr .sysOpen) ≠ ourSysOpen := hfound
    rw [if_neg hfound, if_neg hfound, Syscall.cleanupModule, if_pos hview]
    refine ⟨?_, by simp, by simp [hfound], rfl, fun _ _ => rfl, fun _ _ => rfl⟩
    intro acc hacc
    rw [List.eq_of_mem_replicate hacc]
    rfl

/-! ### The installation -/

/-- **What `init_module` does on a first load**: it saves the entry, and stores to
address 20 of the direct map. -/
theorem initModule_eq (hfirst : s.sysCallTable = 0#32) (h : Placed l table initTarget) :
    initModule ourSysOpen table initTarget s =
      (0, ⟨putWord s.phys (entryPa 0#32) ourSysOpen, table, word s.phys (entryPa table)⟩,
        [.read (entryPa table), .read (entryPa 0#32), .write (entryPa 0#32),
          .read (entryPa table), .read (entryPa 0#32), .read (entryPa table),
          .read (entryPa table)]) := by
  have hzero : (openEntry 0#32).toNat % 4 = 0 := by decide
  have hne : table ≠ 0#32 := by
    have hlow : 0xC0000000 ≤ table.toNat := h.low
    rintro rfl
    exact absurd hlow (by decide)
  unfold initModule Vm.vmap Vm.vunmap
  rw [hfirst, if_neg hne]
  dsimp only
  rw [h.load_entry, Vm.load_alias hzero, Vm.store_alias hzero, h.load_entry, Vm.load_alias hzero,
    h.load_entry, load_entry_unmapped]
  rfl

/-- A load that succeeds does what that of `syscall.c` does: the entry holds
`our_sys_open`, its previous value is in `original_call`, and nothing else of
memory has changed. -/
structure Installs (ourSysOpen : BitVec 32) (table : Addr) (s s' : State) : Prop where
  entry : word s'.phys (entryPa table) = ourSysOpen
  original : s'.originalCall = word s.phys (entryPa table)
  others : ∀ x, ¬ InWindow (entryPa table) 4 x → s'.phys x = s.phys x
  sameTable : ∀ i < 2 ^ 30, view s'.phys table i =
    (Syscall.initModule i386Nr ourSysOpen (view s.phys table)).2.1 i
  sameOriginal : s'.originalCall = (Syscall.initModule i386Nr ourSysOpen (view s.phys table)).2.2

/-- Address 20 is not the entry of any table. -/
theorem Placed.entry_apart (h : Placed l table initTarget) :
    entryPa table ≠ entryPa 0#32 ∧ (entryPa table - entryPa 0#32).toNat % 4 = 0 ∧
      (entryPa 0#32 - entryPa table).toNat % 4 = 0 := by
  have hlow : 0xC0000000 ≤ table.toNat := h.low
  have hal := h.aligned
  have hto : entryPa table - entryPa 0#32 = table := by
    unfold entryPa DirectMap.pa
    rw [openEntry_eq, openEntry_eq]
    bv_omega
  have hfrom : entryPa 0#32 - entryPa table = 0#32 - table := by
    unfold entryPa DirectMap.pa
    rw [openEntry_eq, openEntry_eq]
    bv_omega
  rw [hto, hfrom]
  refine ⟨?_, hal, by bv_omega⟩
  intro heq
  rw [heq, BitVec.sub_self] at hto
  rw [← hto] at hlow
  exact absurd hlow (by decide)

/-- **A first load installs the hook exactly when it was there already**, and the
word at address 20 of the direct map held `our_sys_open` too. -/
theorem installs_iff (hfirst : s.sysCallTable = 0#32) (h : Placed l table initTarget) :
    ((initModule ourSysOpen table initTarget s).1 = 0 →
      Installs ourSysOpen table s (initModule ourSysOpen table initTarget s).2.1) ↔
    word s.phys (entryPa table) = ourSysOpen ∧ word s.phys (entryPa 0#32) = ourSysOpen := by
  obtain ⟨hne, hdist, hdist'⟩ := h.entry_apart
  rw [initModule_eq hfirst h]
  constructor
  · intro hinst
    obtain ⟨hentry, -, hothers, -, -⟩ := hinst rfl
    dsimp only at hentry hothers
    rw [word_putWord_of_ne hne hdist] at hentry
    refine ⟨hentry, ?_⟩
    -- the word at address 20 lies outside the entry, so it must not have changed
    have hkept : word (putWord s.phys (entryPa 0#32) ourSysOpen) (entryPa 0#32) =
        word s.phys (entryPa 0#32) := by
      apply word_congr
      intro i hi
      exact hothers _ (not_inWindow_of_ne hne.symm hdist' hi)
    rw [← hkept, word_putWord]
  · rintro ⟨hentry, hother⟩ -
    have hself : putWord s.phys (entryPa 0#32) ourSysOpen = s.phys := putWord_eq_self_iff.mpr hother
    dsimp only
    rw [hself]
    have hview : view s.phys table (i386Nr .sysOpen) = ourSysOpen := hentry
    refine ⟨hentry, rfl, fun _ _ => rfl, ?_, rfl⟩
    intro i _
    dsimp only
    rw [Syscall.initModule, ← hview, Function.update_eq_self]

/-- A layout with 896 megabytes of direct map. -/
def smallLayout : Layout := ⟨0xF8000000#32, 0xF8800000#32, by decide⟩

theorem placed_smallLayout : Placed smallLayout 0xC0385880#32 0xF8812000#32 :=
  ⟨by decide, by decide, by decide, by decide, by decide⟩

/-- A freshly loaded module in memory that holds the same byte everywhere. -/
def uniform (b : BitVec 8) : State := ⟨fun _ => b, 0#32, 0#32⟩

/-- In memory full of the address of `our_sys_open` the load changes nothing. -/
theorem uniform_memory_installed :
    Installs 0xC8C8C8C8#32 0xC0385880#32 (uniform 0xC8#8)
      (initModule 0xC8C8C8C8#32 0xC0385880#32 0xF8812000#32 (uniform 0xC8#8)).2.1 := by
  have hinst := (installs_iff rfl placed_smallLayout).mpr
    ⟨(by decide : word (uniform 0xC8#8).phys (entryPa 0xC0385880#32) = 0xC8C8C8C8#32), by decide⟩
  exact hinst (by decide)

/-- A first load leaves the entry as it was, and overwrites the word at address
20 of the direct map. -/
theorem first_load_misses_table :
    ¬ ∀ (l : Layout) (ourSysOpen : BitVec 32) (table initTarget : Addr) (s : State),
      s.sysCallTable = 0#32 → Placed l table initTarget →
      (initModule ourSysOpen table initTarget s).1 = 0 →
      Installs ourSysOpen table s (initModule ourSysOpen table initTarget s).2.1 := by
  intro h
  have hinst := h smallLayout 0xF8801000#32 0xC0385880#32 0xF8812000#32 (uniform 0#8) rfl
    placed_smallLayout
  rw [initModule_eq rfl placed_smallLayout] at hinst
  have hentry := (hinst rfl).entry
  revert hentry
  decide

/-- A table whose entry holds the hook. -/
def hooked : State :=
  ⟨putWord (fun _ => 0#8) (entryPa 0xC0385880#32) 0xF8801000#32, 0xC0385880#32, 0xC0100000#32⟩

/-- The removal puts the saved function back. -/
theorem removal_restores_entry :
    word (cleanupModule 0xF8801000#32 0xF8812000#32 hooked).1 (entryPa 0xC0385880#32) =
      0xC0100000#32 := by
  have hfound : word hooked.phys (entryPa hooked.sysCallTable) = 0xF8801000#32 := word_putWord _ _ _
  obtain ⟨-, -, -, hword, -⟩ := cleanupModule_spec 0xF8801000#32 hooked placed_smallLayout
  rw [if_pos hfound] at hword
  exact hword

end Kmap
end KernelStudy
