import KernelStudy.Lib.DList
import KernelStudy.Lib.Text

/-!
# The list module

`list.c` allocates ten thousand objects, links them into a list in the order of
their numbers, and prints them; on removal it takes the first object off the list
and frees it until the list is empty.

Objects are pointers of any type; `list` is the first field of an object, so that
`list_entry` is the identity.  The heap keeps a record of everything that is done
to an object, from which one can read whether it is used after it was freed.

## Main definitions

* `Heap`, `Event` — the objects, and what is done to them.
* `initModule`, `cleanupModule` — the entry points of `list.c`.
* `Fresh` — what is known of the objects that `kmalloc` hands out.
* `Built` — the invariant of the loop that builds the list.
* `NoUseAfterFree` — nothing is done to an object behind its `kfree`.

## Main results

* `built_initStep` — one pass adds one object.
* `listForEach_eq` — the pass over the list prints each object once, in order.
* `cleanupLoop_spec` — the removal frees the objects of the list, in order.
* `list_module_spec` — **the module from its load to its removal.**
-/

namespace KernelStudy
namespace ObjectList

/-! ### The heap -/

/-- Something that is done to an object. -/
inductive Event (α : Type*) where
  /-- `kmalloc` hands it out. -/
  | alloc (x : α)
  /-- One of its fields is read. -/
  | read (x : α)
  /-- One of its fields is written. -/
  | write (x : α)
  /-- `kfree`. -/
  | free (x : α)

/-- The object. -/
def Event.ptr {α : Type*} : Event α → α
  | .alloc x => x
  | .read x => x
  | .write x => x
  | .free x => x

/-- The objects and the head of the list. -/
structure Heap (α : Type*) where
  /-- The fields `list`, and the head. -/
  links : Links α
  /-- The fields `sec`. -/
  sec : α → ℤ
  /-- The fields `tty_name`. -/
  ttyName : α → ℕ → UInt8
  /-- What has been done. -/
  trace : List (Event α)

variable {α : Type*}

/-- Something is done. -/
def Heap.log (h : Heap α) (es : List (Event α)) : Heap α := { h with trace := h.trace ++ es }

@[simp] theorem log_links (h : Heap α) (es : List (Event α)) : (h.log es).links = h.links := rfl

@[simp] theorem log_sec (h : Heap α) (es : List (Event α)) : (h.log es).sec = h.sec := rfl

@[simp] theorem log_ttyName (h : Heap α) (es : List (Event α)) :
    (h.log es).ttyName = h.ttyName := rfl

@[simp] theorem log_trace (h : Heap α) (es : List (Event α)) :
    (h.log es).trace = h.trace ++ es := rfl

theorem log_log (h : Heap α) (es es' : List (Event α)) :
    (h.log es).log es' = h.log (es ++ es') := by
  simp [Heap.log]

section

variable [DecidableEq α]

/-- `myobj->sec = sec`. -/
def Heap.setSec (h : Heap α) (x : α) (sec : ℤ) : Heap α :=
  { h with sec := Function.update h.sec x sec }.log [.write x]

/-- `strncpy(myobj->tty_name, s, n)`. -/
def Heap.setTtyName (h : Heap α) (x : α) (s : List UInt8) (n : ℕ) : Heap α :=
  { h with ttyName := Function.update h.ttyName x (strncpy (h.ttyName x) s n) }.log [.write x]

/-- `list_add_tail`. -/
def Heap.listAddTail (h : Heap α) (new head : α) : Heap α :=
  { h with links := h.links.listAddTail new head }.log
    [.read head, .write head, .write new, .write new, .write (h.links.prev head)]

/-- `list_del`. -/
def Heap.listDel (poison₁ poison₂ : α) (h : Heap α) (entry : α) : Heap α :=
  { h with links := h.links.listDel poison₁ poison₂ entry }.log
    [.read entry, .read entry, .write (h.links.next entry), .write (h.links.prev entry),
      .write entry, .write entry]

/-! ### The module -/

/-- The number of objects. -/
def objectCount : ℕ := 10000

/-- The size of `tty_name`. -/
def ttyNameSize : ℕ := 6

/-- What is printed for an object. -/
def line (sec : ℤ) (ttyName : ℕ → UInt8) : List UInt8 :=
  bytes "*** name " ++ cText ttyNameSize ttyName ++ bytes " : " ++ intText sec ++ bytes "\n"

variable (kmalloc : ℕ → α) (head poison₁ poison₂ : α)

/-- The body of the first loop of `init_module`; `kmalloc i` is what the call in
pass `i` returns. -/
def initStep (h : Heap α) (i : ℕ) : Heap α :=
  let myobj := kmalloc i
  let h := h.log [.alloc myobj]
  let h := h.setSec myobj i
  let h := h.setTtyName myobj (bytes "tty") 5
  h.listAddTail myobj head

/-- The heap after the first `n` passes. -/
def initLoop (n : ℕ) (h : Heap α) : Heap α := (List.range n).foldl (initStep kmalloc head) h

/-- The loop `list_for_each` of `init_module` from `p` on: the heap, and the
objects visited with what is printed for them. -/
def listForEach : ℕ → Heap α → α → Option (Heap α × List (α × List UInt8))
  | 0, _, _ => none
  | fuel + 1, h, p =>
      if p = head then some (h, [])
      else
        let myobj := p
        (listForEach fuel (h.log [.read myobj, .read myobj, .read p]) (h.links.next p)).map
          fun r => (r.1, (myobj, line (h.sec myobj) (h.ttyName myobj)) :: r.2)

/-- `init_module`: its result, the heap, and the objects it has printed. -/
def initModule (fuel : ℕ) (h : Heap α) : Option (ℤ × Heap α × List (α × List UInt8)) :=
  let h := initLoop kmalloc head objectCount h
  (listForEach head fuel (h.log [.read head]) (h.links.next head)).map fun r => (0, r)

/-- The loop of `cleanup_module`. -/
def cleanupLoop : ℕ → Heap α → Option (Heap α)
  | 0, _ => none
  | fuel + 1, h =>
      if h.links.next head = head then some (h.log [.read head])
      else
        let myobj := h.links.next head
        let h := h.log [.read head, .read head]
        let h := h.listDel poison₁ poison₂ myobj
        cleanupLoop fuel (h.log [.free myobj])

/-- `cleanup_module`. -/
def cleanupModule (fuel : ℕ) (h : Heap α) : Option (Heap α) :=
  cleanupLoop head poison₁ poison₂ fuel h

end

/-! ### Records of what is done -/

/-- The objects handed out, in order. -/
def allocs (trace : List (Event α)) : List α :=
  trace.filterMap fun
    | .alloc x => some x
    | _ => none

/-- The objects freed, in order. -/
def frees (trace : List (Event α)) : List α :=
  trace.filterMap fun
    | .free x => some x
    | _ => none

@[simp] theorem allocs_append (t t' : List (Event α)) : allocs (t ++ t') = allocs t ++ allocs t' :=
  List.filterMap_append

@[simp] theorem frees_append (t t' : List (Event α)) : frees (t ++ t') = frees t ++ frees t' :=
  List.filterMap_append

theorem filterMap_reads {β : Type*} {f : Event α → Option β} (hf : ∀ x, f (.read x) = none)
    {t : List (Event α)} (ht : ∀ e ∈ t, ∃ x, e = .read x) : t.filterMap f = [] := by
  apply List.filterMap_eq_nil_iff.mpr
  intro e he
  obtain ⟨x, rfl⟩ := ht e he
  exact hf x

/-- Reading frees nothing and allocates nothing. -/
theorem frees_allocs_of_reads {t : List (Event α)} (ht : ∀ e ∈ t, ∃ x, e = .read x) :
    frees t = [] ∧ allocs t = [] :=
  ⟨filterMap_reads (fun _ => rfl) ht, filterMap_reads (fun _ => rfl) ht⟩

/-- Nothing is done to an object behind its `kfree`. -/
def NoUseAfterFree (trace : List (Event α)) : Prop :=
  trace.Pairwise fun e e' => ∀ x, e = .free x → e'.ptr ≠ x

theorem free_notMem {t : List (Event α)} (h : frees t = []) {e : Event α} (he : e ∈ t) (x : α) :
    e ≠ .free x := by
  rintro rfl
  have hmem : x ∈ frees t := List.mem_filterMap.mpr ⟨_, he, rfl⟩
  rw [h] at hmem
  exact List.not_mem_nil hmem

/-- In front of a record nothing can go wrong before the first `kfree`. -/
theorem NoUseAfterFree.prepend {t t' : List (Event α)} (h : frees t = [])
    (h' : NoUseAfterFree t') : NoUseAfterFree (t ++ t') := by
  refine List.pairwise_append.mpr ⟨?_, h', ?_⟩
  · exact List.pairwise_of_forall_mem_list fun e he e' _ x hx => absurd hx (free_notMem h he x)
  · exact fun e he e' _ x hx => absurd hx (free_notMem h he x)

/-! ### Building the list -/

variable {kmalloc : ℕ → α} {head null : α}

/-- The objects of the first `n` passes. -/
def objects (kmalloc : ℕ → α) (n : ℕ) : List α := (List.range n).map kmalloc

theorem objects_succ (kmalloc : ℕ → α) (n : ℕ) :
    objects kmalloc (n + 1) = objects kmalloc n ++ [kmalloc n] := by
  simp [objects, List.range_succ]

@[simp] theorem length_objects (kmalloc : ℕ → α) (n : ℕ) : (objects kmalloc n).length = n := by
  simp [objects]

/-- What is known of `n` objects that `kmalloc` hands out: they are objects,
distinct ones, and not the static head of the list. -/
structure Fresh (kmalloc : ℕ → α) (null head : α) (n : ℕ) : Prop where
  nonNull : null ∉ objects kmalloc n
  notHead : head ∉ objects kmalloc n
  distinct : (objects kmalloc n).Nodup

theorem Fresh.notMem {n i : ℕ} (h : Fresh kmalloc null head n) (hi : i < n) :
    kmalloc i ∉ head :: objects kmalloc i := by
  have hmem : ∀ j < n, kmalloc j ∈ objects kmalloc n :=
    fun j hj => List.mem_map_of_mem (List.mem_range.mpr hj)
  intro hin
  rcases List.mem_cons.mp hin with heq | hin
  · exact h.notHead (heq ▸ hmem i hi)
  · obtain ⟨j, hj, heq⟩ := List.mem_map.mp hin
    have hj' := List.mem_range.mp hj
    have hinj := List.inj_on_of_nodup_map h.distinct (List.mem_range.mpr (show j < n by omega))
      (List.mem_range.mpr hi) heq
    omega

/-- The heap after `n` passes: the list has the objects in order, each with its
number and its name. -/
structure Built (kmalloc : ℕ → α) (head : α) (n : ℕ) (h : Heap α) : Prop where
  ring : IsDRing h.links head (objects kmalloc n)
  sec : ∀ i < n, h.sec (kmalloc i) = i
  ttyName : ∀ i < n, cText ttyNameSize (h.ttyName (kmalloc i)) = bytes "tty"
  allocated : allocs h.trace = objects kmalloc n
  freed : frees h.trace = []

theorem cText_strncpy (buf : ℕ → UInt8) :
    cText ttyNameSize (strncpy buf (bytes "tty") 5) = bytes "tty" := rfl

variable [DecidableEq α]

/-- **One pass adds one object at the tail.** -/
theorem built_initStep {n : ℕ} {h : Heap α} (hb : Built kmalloc head n h)
    (hnew : kmalloc n ∉ head :: objects kmalloc n) :
    Built kmalloc head (n + 1) (initStep kmalloc head h n) := by
  have hold : ∀ i < n, kmalloc i ≠ kmalloc n := by
    intro i hi heq
    apply hnew
    rw [← heq]
    exact List.mem_cons_of_mem _ (List.mem_map_of_mem (List.mem_range.mpr hi))
  have hname : (initStep kmalloc head h n).ttyName =
      Function.update h.ttyName (kmalloc n)
        (strncpy (h.ttyName (kmalloc n)) (bytes "tty") 5) := rfl
  have hsec : (initStep kmalloc head h n).sec = Function.update h.sec (kmalloc n) (n : ℤ) := rfl
  have htrace : (initStep kmalloc head h n).trace = h.trace ++ [.alloc (kmalloc n),
      .write (kmalloc n), .write (kmalloc n), .read head, .write head, .write (kmalloc n),
      .write (kmalloc n), .write (h.links.prev head)] := by
    simp [initStep, Heap.listAddTail, Heap.setTtyName, Heap.setSec]
  refine ⟨?_, ?_, ?_, ?_, ?_⟩
  · rw [objects_succ]
    exact hb.ring.addTail hnew
  · intro i hi
    rw [hsec]
    rcases Nat.lt_succ_iff_lt_or_eq.mp hi with hi | rfl
    · rw [Function.update_of_ne (hold i hi), hb.sec i hi]
    · rw [Function.update_self]
  · intro i hi
    rw [hname]
    rcases Nat.lt_succ_iff_lt_or_eq.mp hi with hi | rfl
    · rw [Function.update_of_ne (hold i hi), hb.ttyName i hi]
    · rw [Function.update_self, cText_strncpy]
  · rw [htrace, allocs_append, hb.allocated, objects_succ]
    rfl
  · rw [htrace, frees_append, hb.freed]
    rfl

/-- The heap when the module is loaded: the head is linked to itself, as
`LIST_HEAD` leaves it. -/
structure Loaded (head : α) (h : Heap α) : Prop where
  next : h.links.next head = head
  prev : h.links.prev head = head
  trace : h.trace = []

/-- **The list after any number of passes.** -/
theorem built_initLoop {m : ℕ} {h₀ : Heap α} (hload : Loaded head h₀)
    (hfresh : Fresh kmalloc null head m) : ∀ n ≤ m,
      Built kmalloc head n (initLoop kmalloc head n h₀) := by
  intro n
  induction n with
  | zero =>
    intro _
    refine ⟨isDRing_nil.mpr ⟨hload.next, hload.prev⟩, ?_, ?_, ?_, ?_⟩
    · exact fun i hi => absurd hi (Nat.not_lt_zero i)
    · exact fun i hi => absurd hi (Nat.not_lt_zero i)
    · exact congrArg allocs hload.trace
    · exact congrArg frees hload.trace
  | succ n ih =>
    intro hn
    have hstep := built_initStep (ih (by omega)) (hfresh.notMem (show n < m by omega))
    rw [initLoop, List.range_succ, List.foldl_concat]
    exact hstep

/-! ### Printing it -/

/-- **The pass over the list ends, visits each object once, in order**, and
changes nothing. -/
theorem listForEach_eq : ∀ (l : List α) (fuel : ℕ) (h : Heap α) (p : α), l.length < fuel →
    Walk h.links.next head p l → ∃ t, (∀ e ∈ t, ∃ x, e = .read x) ∧
      listForEach head fuel h p =
        some (h.log t, l.map fun x => (x, line (h.sec x) (h.ttyName x))) := by
  intro l
  induction l with
  | nil =>
    intro fuel h p hfuel hwalk
    obtain ⟨fuel, rfl⟩ : ∃ n, fuel = n + 1 := ⟨fuel - 1, by omega⟩
    have hp : p = head := hwalk
    refine ⟨[], fun e he => absurd he List.not_mem_nil, ?_⟩
    rw [listForEach, if_pos hp, Heap.log, List.append_nil]
    rfl
  | cons x l ih =>
    intro fuel h p hfuel hwalk
    obtain ⟨fuel, rfl⟩ : ∃ n, fuel = n + 1 := ⟨fuel - 1, by omega⟩
    obtain ⟨rfl, hne, hrest⟩ := hwalk
    rw [List.length_cons] at hfuel
    obtain ⟨t, ht, heq⟩ := ih fuel (h.log [.read p, .read p, .read p]) (h.links.next p)
      (by omega) hrest
    refine ⟨[.read p, .read p, .read p] ++ t, ?_, ?_⟩
    · intro e he
      rcases List.mem_append.mp he with he | he
      · refine ⟨p, ?_⟩
        simpa using he
      · exact ht e he
    · rw [listForEach, if_neg hne]
      dsimp only
      rw [heq, log_log]
      rfl

/-! ### Removing it -/

/-- **The removal ends, frees the objects of the list in order**, touches nothing
but them and the head, and none of them behind its `kfree`. -/
theorem cleanupLoop_spec (poison₁ poison₂ : α) : ∀ (l : List α) (fuel : ℕ) (h : Heap α),
    l.length < fuel → IsDRing h.links head l →
      ∃ h' t, cleanupLoop head poison₁ poison₂ fuel h = some h' ∧
      h'.trace = h.trace ++ t ∧ IsDRing h'.links head [] ∧ allocs t = [] ∧ frees t = l ∧
      NoUseAfterFree t ∧ ∀ e ∈ t, e.ptr ∈ head :: l := by
  intro l
  induction l with
  | nil =>
    intro fuel h hfuel hring
    obtain ⟨fuel, rfl⟩ : ∃ n, fuel = n + 1 := ⟨fuel - 1, by omega⟩
    rw [cleanupLoop, if_pos (hring.next_eq_head_iff.mpr rfl)]
    refine ⟨_, [.read head], rfl, rfl, hring, rfl, rfl, List.pairwise_singleton _ _, ?_⟩
    intro e he
    rw [List.mem_singleton.mp he]
    exact List.mem_cons_self
  | cons x l ih =>
    intro fuel h hfuel hring
    obtain ⟨fuel, rfl⟩ : ∃ n, fuel = n + 1 := ⟨fuel - 1, by omega⟩
    rw [List.length_cons] at hfuel
    have hne : ¬ h.links.next head = head :=
      fun heq => List.cons_ne_nil x l (hring.next_eq_head_iff.mp heq)
    have hfirst : h.links.next head = x := hring.seg.1.1
    have hxmem : x ∈ head :: x :: l := List.mem_cons_of_mem _ List.mem_cons_self
    rw [cleanupLoop, if_neg hne, hfirst]
    dsimp only
    -- what one pass does to the objects
    let pass : List (Event α) := [.read head, .read head, .read x, .read x,
      .write (h.links.next x), .write (h.links.prev x), .write x, .write x]
    obtain ⟨h', t, hrun, htrace, hempty, hallocs, hfrees, hclean, hptr⟩ :=
      ih fuel (((h.log [.read head, .read head]).listDel poison₁ poison₂ x).log [.free x])
        (by omega) (hring.delFirst poison₁ poison₂)
    have hpass : frees pass = [] := rfl
    refine ⟨h', pass ++ .free x :: t, hrun, ?_, hempty, ?_, ?_, ?_, ?_⟩
    · rw [htrace]
      simp [Heap.listDel, pass]
    · rw [allocs_append]
      exact hallocs
    · rw [frees_append, hpass, List.nil_append, ← hfrees]
      rfl
    · -- the object freed is neither the head nor left in the list
      refine NoUseAfterFree.prepend hpass (List.pairwise_cons.mpr ⟨?_, hclean⟩)
      intro e he y hy
      rw [← Event.free.inj hy]
      obtain ⟨hhead, hl⟩ := List.nodup_cons.mp hring.nodup
      have hx : x ∉ head :: l := by
        rw [List.mem_cons, not_or]
        exact ⟨fun heq => hhead (heq ▸ List.mem_cons_self), (List.nodup_cons.mp hl).1⟩
      exact ne_of_mem_of_not_mem (hptr e he) hx
    · intro e he
      rcases List.mem_append.mp he with he | he
      · have hnext := hring.next_mem hxmem
        have hprev : h.links.prev x = head := hring.seg.1.2
        simp only [pass, List.mem_cons, List.not_mem_nil, or_false] at he
        rcases he with rfl | rfl | rfl | rfl | rfl | rfl | rfl | rfl
        · exact List.mem_cons_self
        · exact List.mem_cons_self
        · exact hxmem
        · exact hxmem
        · exact hnext
        · rw [Event.ptr, hprev]
          exact List.mem_cons_self
        · exact hxmem
        · exact hxmem
      · rcases List.mem_cons.mp he with rfl | he
        · exact hxmem
        · rcases List.mem_cons.mp (hptr e he) with heq | hmem
          · rw [heq]
            exact List.mem_cons_self
          · exact List.mem_cons_of_mem _ (List.mem_cons_of_mem _ hmem)

/-! ### The module as a whole -/

/-- What the pass over the list prints. -/
theorem Built.printed {n fuel : ℕ} {h : Heap α} (hb : Built kmalloc head n h) (hfuel : n < fuel) :
    ∃ t, (∀ e ∈ t, ∃ x, e = .read x) ∧
      listForEach head fuel (h.log [.read head]) (h.links.next head) =
        some ((h.log [.read head]).log t, (List.range n).map fun i =>
          (kmalloc i, bytes "*** name tty : " ++ intText i ++ bytes "\n")) := by
  have hlen : (objects kmalloc n).length < fuel := by
    rw [length_objects]
    exact hfuel
  obtain ⟨t, ht, heq⟩ := listForEach_eq (objects kmalloc n) fuel (h.log [.read head])
    (h.links.next head) hlen hb.ring.forward.walk
  refine ⟨t, ht, ?_⟩
  rw [heq, objects, List.map_map]
  congr 2
  apply List.map_congr_left
  intro i hi
  have hi' := List.mem_range.mp hi
  have hfront : bytes "*** name tty : " = bytes "*** name " ++ bytes "tty" ++ bytes " : " := by
    decide
  simp only [Function.comp_apply, log_sec, log_ttyName, line, hb.sec i hi', hb.ttyName i hi',
    hfront]

/-- What the removal does to the list, once it is built and was read. -/
theorem Built.removed {n fuel : ℕ} {h : Heap α} {t : List (Event α)}
    (hb : Built kmalloc head n h) (poison₁ poison₂ : α) (hfuel : n < fuel)
    (ht : ∀ e ∈ t, ∃ x, e = .read x) :
    ∃ h', cleanupLoop head poison₁ poison₂ fuel (h.log t) = some h' ∧
      allocs h'.trace = objects kmalloc n ∧ frees h'.trace = objects kmalloc n ∧
      NoUseAfterFree h'.trace ∧ h'.links.next head = head ∧ h'.links.prev head = head := by
  have hlen : (objects kmalloc n).length < fuel := by
    rw [length_objects]
    exact hfuel
  obtain ⟨hfreeT, hallocT⟩ := frees_allocs_of_reads ht
  obtain ⟨h', t', hrun, htrace, hempty, hallocs, hfrees, hsafe, -⟩ :=
    cleanupLoop_spec poison₁ poison₂ (objects kmalloc n) fuel (h.log t) hlen hb.ring
  have hbefore : frees (h.log t).trace = [] := by
    rw [log_trace, frees_append, hb.freed, hfreeT]
    rfl
  refine ⟨h', hrun, ?_, ?_, ?_, isDRing_nil.mp hempty⟩
  · rw [htrace, log_trace, allocs_append, allocs_append, hb.allocated, hallocT, hallocs]
    simp
  · rw [htrace, frees_append, hbefore, hfrees]
    rfl
  · rw [htrace]
    exact NoUseAfterFree.prepend hbefore hsafe

/-- **The list module from its load to its removal**, for any objects that
`kmalloc` hands out.  After each pass of the loop the list, read forward, carries
the numbers up to that of the pass, and backward the same in reverse order, and
the two links of each element undo each other.  The pass over the list visits
each object once, in that order.  The removal ends, frees every object that was
allocated once and no other, does nothing to an object behind its `kfree`, and
leaves the head linked to itself. -/
theorem list_module_spec (poison₁ poison₂ : α) {h₀ : Heap α} (hload : Loaded head h₀)
    (hfresh : Fresh kmalloc null head objectCount) :
    (∀ i < objectCount,
      IsRing (initLoop kmalloc head (i + 1) h₀).links.next head (objects kmalloc (i + 1)) ∧
      IsRing (initLoop kmalloc head (i + 1) h₀).links.prev head
        (objects kmalloc (i + 1)).reverse ∧
      (objects kmalloc (i + 1)).map (initLoop kmalloc head (i + 1) h₀).sec =
        (List.range (i + 1)).map (fun j : ℕ => (j : ℤ)) ∧
      ∀ x ∈ head :: objects kmalloc (i + 1),
        (initLoop kmalloc head (i + 1) h₀).links.prev
          ((initLoop kmalloc head (i + 1) h₀).links.next x) = x ∧
        (initLoop kmalloc head (i + 1) h₀).links.next
          ((initLoop kmalloc head (i + 1) h₀).links.prev x) = x) ∧
    ∀ fuel, objectCount < fuel → ∃ h₁ h₂ : Heap α,
      initModule kmalloc head fuel h₀ = some (0, h₁, (List.range objectCount).map fun i =>
        (kmalloc i, bytes "*** name tty : " ++ intText i ++ bytes "\n")) ∧
      cleanupModule head poison₁ poison₂ fuel h₁ = some h₂ ∧
      allocs h₂.trace = objects kmalloc objectCount ∧
      frees h₂.trace = objects kmalloc objectCount ∧
      (∀ i < objectCount, (frees h₂.trace).count (kmalloc i) = 1) ∧
      NoUseAfterFree h₂.trace ∧
      h₂.links.next head = head ∧ h₂.links.prev head = head := by
  constructor
  · intro i hi
    have hb := built_initLoop hload hfresh (i + 1) hi
    refine ⟨hb.ring.forward, hb.ring.backward, ?_, fun x hx => hb.ring.inverse hx⟩
    rw [objects, List.map_map]
    refine List.map_congr_left fun j hj => ?_
    exact hb.sec j (List.mem_range.mp hj)
  · intro fuel hfuel
    have hb := built_initLoop hload hfresh objectCount le_rfl
    obtain ⟨t, ht, hprint⟩ := hb.printed hfuel
    have hreads : ∀ e ∈ [.read head] ++ t, ∃ x, e = .read x := by
      intro e he
      rcases List.mem_append.mp he with he | he
      · exact ⟨head, List.mem_singleton.mp he⟩
      · exact ht e he
    obtain ⟨h₂, hclean, hallocs, hfrees, hsafe, hnext, hprev⟩ :=
      hb.removed poison₁ poison₂ hfuel hreads
    refine ⟨(initLoop kmalloc head objectCount h₀).log ([.read head] ++ t), h₂, ?_, ?_,
      hallocs, hfrees, ?_, hsafe, hnext, hprev⟩
    · simp only [initModule, hprint, Option.map_some, log_log]
    · rw [cleanupModule]
      exact hclean
    · intro i hi
      rw [hfrees]
      exact List.count_eq_one_of_mem hfresh.distinct
        (List.mem_map_of_mem (List.mem_range.mpr hi))

/-- Pointers are numbers, and the head is at zero; `kmalloc` hands out the even
ones from the top down. -/
def topDown (i : ℕ) : ℕ := 2 * (objectCount - i)

theorem fresh_topDown : Fresh topDown 1 0 objectCount := by
  have hmem : ∀ x ∈ objects topDown objectCount, ∃ i < objectCount, x = topDown i := by
    intro x hx
    obtain ⟨i, hi, rfl⟩ := List.mem_map.mp hx
    exact ⟨i, List.mem_range.mp hi, rfl⟩
  refine ⟨?_, ?_, ?_⟩
  · intro hnull
    obtain ⟨i, hi, heq⟩ := hmem 1 hnull
    unfold topDown at heq
    omega
  · intro hhead
    obtain ⟨i, hi, heq⟩ := hmem 0 hhead
    unfold topDown at heq
    omega
  · refine List.Nodup.map_on ?_ List.nodup_range
    intro i hi j hj heq
    have hi' := List.mem_range.mp hi
    have hj' := List.mem_range.mp hj
    unfold topDown at heq
    omega

/-- The heap before the load. -/
def emptyHeap : Heap ℕ := ⟨⟨fun _ => 0, fun _ => 0⟩, fun _ => 0, fun _ _ => 0, []⟩

/-- With objects in descending order of address the module frees them all. -/
theorem topDown_module_spec : ∃ (h₁ h₂ : Heap ℕ) (printed : List (ℕ × List UInt8)),
    initModule topDown 0 (objectCount + 1) emptyHeap = some (0, h₁, printed) ∧
      cleanupModule 0 3 5 (objectCount + 1) h₁ = some h₂ ∧
      frees h₂.trace = objects topDown objectCount ∧ h₂.links.next 0 = 0 := by
  have hload : Loaded 0 emptyHeap := ⟨rfl, rfl, rfl⟩
  obtain ⟨-, hrun⟩ := list_module_spec 3 5 hload fresh_topDown
  obtain ⟨h₁, h₂, hinit, hclean, -, hfrees, -, -, hnext, -⟩ :=
    hrun (objectCount + 1) (Nat.lt_succ_self _)
  exact ⟨h₁, h₂, _, hinit, hclean, hfrees, hnext⟩

end ObjectList
end KernelStudy
