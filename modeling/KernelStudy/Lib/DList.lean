import KernelStudy.Lib.Ring

/-!
# Doubly linked rings

The lists of `linux/list.h`: every element has a link to the next and one to the
previous element, and the head is an element like the others, so that an empty
list is a head linked to itself.  Nothing is known of the elements but that they
can be told apart.

## Main definitions

* `Links` — the links of all elements, with `setNext` and `setPrev`.
* `Links.listAddTail`, `Links.listDel` — the two operations, store by store.
* `Seg k a l b` — from `a` the links lead through `l` to `b`, and back.
* `IsDRing k head l` — the list with the elements `l`.

## Main results

* `IsDRing.forward`, `IsDRing.backward`, `IsDRing.inverse` — **a list read in
  both directions.**
* `IsDRing.addTail` — adding at the tail.
* `IsDRing.delFirst` — removing the first element.
-/

namespace KernelStudy

/-- The links of all elements. -/
structure Links (α : Type*) where
  /-- The link to the next element. -/
  next : α → α
  /-- The link to the previous element. -/
  prev : α → α

namespace Links

variable {α : Type*} [DecidableEq α]

/-- Stores a link to the next element. -/
def setNext (k : Links α) (x y : α) : Links α := { k with next := Function.update k.next x y }

/-- Stores a link to the previous element. -/
def setPrev (k : Links α) (x y : α) : Links α := { k with prev := Function.update k.prev x y }

@[simp] theorem setNext_next (k : Links α) (x y z : α) :
    (k.setNext x y).next z = if z = x then y else k.next z := Function.update_apply ..

@[simp] theorem setNext_prev (k : Links α) (x y : α) : (k.setNext x y).prev = k.prev := rfl

@[simp] theorem setPrev_prev (k : Links α) (x y z : α) :
    (k.setPrev x y).prev z = if z = x then y else k.prev z := Function.update_apply ..

@[simp] theorem setPrev_next (k : Links α) (x y : α) : (k.setPrev x y).next = k.next := rfl

/-- `list_add_tail`. -/
def listAddTail (k : Links α) (new head : α) : Links α :=
  let prev := k.prev head
  (((k.setPrev head new).setNext new head).setPrev new prev).setNext prev new

/-- `list_del`, which leaves the two poison values in the element removed. -/
def listDel (poison₁ poison₂ : α) (k : Links α) (entry : α) : Links α :=
  let prev := k.prev entry
  let next := k.next entry
  (((k.setPrev next prev).setNext prev next).setNext entry poison₁).setPrev entry poison₂

end Links

/-! ### Segments -/

variable {α : Type*}

/-- From `a` the links lead through `l` to `b`, and from `b` back. -/
def Seg (k : Links α) : α → List α → α → Prop
  | a, [], b => k.next a = b ∧ k.prev b = a
  | a, x :: l, b => (k.next a = x ∧ k.prev x = a) ∧ Seg k x l b

variable {k k' : Links α}

/-- A segment splits at any of its elements. -/
theorem seg_append {x : α} : ∀ {l l' : List α} {a b : α},
    Seg k a (l ++ x :: l') b ↔ Seg k a l x ∧ Seg k x l' b := by
  intro l
  induction l with
  | nil => intro l' a b; rfl
  | cons y l ih =>
    intro l' a b
    rw [List.cons_append, Seg, Seg, ih]
    exact and_assoc.symm

/-- A segment depends on the links inside it only. -/
theorem seg_congr : ∀ {l : List α} {a b : α},
    (∀ x ∈ a :: l, k'.next x = k.next x) → (∀ x ∈ l ++ [b], k'.prev x = k.prev x) →
      Seg k a l b → Seg k' a l b := by
  intro l
  induction l with
  | nil =>
    intro a b hnext hprev h
    rw [Seg, hnext a List.mem_cons_self, hprev b List.mem_cons_self]
    exact h
  | cons y l ih =>
    intro a b hnext hprev h
    rw [Seg, hnext a List.mem_cons_self, hprev y List.mem_cons_self]
    refine ⟨h.1, ih ?_ ?_ h.2⟩
    · intro x hx
      exact hnext x (List.mem_cons_of_mem _ hx)
    · intro x hx
      exact hprev x (List.mem_cons_of_mem _ hx)

/-- The element in front of the end is in the segment. -/
theorem prev_mem_of_seg : ∀ {l : List α} {a b : α}, Seg k a l b → k.prev b ∈ a :: l := by
  intro l
  induction l with
  | nil => intro a b h; exact List.mem_singleton.mpr h.2
  | cons x l ih =>
    intro a b h
    exact List.mem_cons_of_mem _ (ih h.2)

/-- The links of a segment lead to its elements and its end. -/
theorem next_mem_of_seg : ∀ {l : List α} {a b x : α}, Seg k a l b → x ∈ a :: l →
    k.next x ∈ l ++ [b] := by
  intro l
  induction l with
  | nil =>
    intro a b x h hx
    rw [List.mem_singleton.mp hx, h.1]
    exact List.mem_singleton_self b
  | cons y l ih =>
    intro a b x h hx
    rcases List.mem_cons.mp hx with rfl | hx
    · rw [h.1.1]
      exact List.mem_cons_self
    · exact List.mem_cons_of_mem _ (ih h.2 hx)

/-- A segment whose last link is set to another end. -/
theorem seg_retarget : ∀ {l : List α} {a b c : α}, (a :: l).Nodup → Seg k a l b →
    (k'.next (k.prev b) = c ∧ k'.prev c = k.prev b) →
      (∀ x ∈ a :: l, x ≠ k.prev b → k'.next x = k.next x) →
      (∀ x ∈ l, k'.prev x = k.prev x) → Seg k' a l c := by
  intro l
  induction l with
  | nil =>
    intro a b c _ h hend _ _
    rw [h.2] at hend
    exact hend
  | cons x l ih =>
    intro a b c hnodup h hend hnext hprev
    obtain ⟨ha, hl⟩ := List.nodup_cons.mp hnodup
    have hne : a ≠ k.prev b := ne_of_mem_of_not_mem (prev_mem_of_seg h.2) ha |>.symm
    refine ⟨?_, ih hl h.2 hend ?_ ?_⟩
    · rw [hnext a List.mem_cons_self hne, hprev x List.mem_cons_self]
      exact h.1
    · intro y hy
      exact hnext y (List.mem_cons_of_mem _ hy)
    · intro y hy
      exact hprev y (List.mem_cons_of_mem _ hy)

/-- The links of a segment turned around. -/
theorem seg_reverse : ∀ {l : List α} {a b : α},
    Seg k a l b → Seg ⟨k.prev, k.next⟩ b l.reverse a := by
  intro l
  induction l with
  | nil => intro a b h; exact h.symm
  | cons x l ih =>
    intro a b h
    rw [List.reverse_cons, seg_append]
    exact ⟨ih h.2, h.1.symm⟩

/-- A segment that does not meet its end is a walk to it. -/
theorem walk_of_seg : ∀ {l : List α} {a b : α}, b ∉ l → Seg k a l b →
    Walk k.next b (k.next a) l := by
  intro l
  induction l with
  | nil => intro a b _ h; exact h.1
  | cons x l ih =>
    intro a b hb h
    have hx : k.next a = x := h.1.1
    refine ⟨hx, ?_, ?_⟩
    · rw [hx]
      exact fun heq => hb (heq ▸ List.mem_cons_self)
    · rw [hx]
      exact ih (fun hmem => hb (List.mem_cons_of_mem _ hmem)) h.2

/-- Inside a segment the two links undo each other. -/
theorem seg_inverse : ∀ {l : List α} {a b : α}, Seg k a l b →
    (∀ x ∈ a :: l, k.prev (k.next x) = x) ∧ ∀ x ∈ l ++ [b], k.next (k.prev x) = x := by
  intro l
  induction l with
  | nil =>
    intro a b h
    simp [h.1, h.2]
  | cons y l ih =>
    intro a b h
    obtain ⟨⟨hnext, hprev⟩, hrest⟩ := h
    obtain ⟨hforth, hback⟩ := ih hrest
    constructor
    · intro x hx
      rcases List.mem_cons.mp hx with rfl | hx
      · rw [hnext, hprev]
      · exact hforth x hx
    · intro x hx
      rcases List.mem_cons.mp hx with rfl | hx
      · rw [hprev, hnext]
      · exact hback x hx

/-! ### Rings -/

/-- The list at `head` with the elements `l`. -/
structure IsDRing (k : Links α) (head : α) (l : List α) : Prop where
  nodup : (head :: l).Nodup
  seg : Seg k head l head

variable {head : α} {l : List α}

theorem IsDRing.notMem (h : IsDRing k head l) : head ∉ l := (List.nodup_cons.mp h.nodup).1

/-- **Read forward, the list has its elements in order.** -/
theorem IsDRing.forward (h : IsDRing k head l) : IsRing k.next head l :=
  ⟨h.nodup, walk_of_seg h.notMem h.seg⟩

/-- **Read backward, it has them in reverse order.** -/
theorem IsDRing.backward (h : IsDRing k head l) : IsRing k.prev head l.reverse := by
  have hnot : head ∉ l.reverse := fun hmem => h.notMem (List.mem_reverse.mp hmem)
  refine ⟨List.nodup_cons.mpr ⟨hnot, ?_⟩, ?_⟩
  · exact List.nodup_reverse.mpr (List.nodup_cons.mp h.nodup).2
  · exact walk_of_seg hnot (seg_reverse h.seg)

/-- **The two links of an element undo each other.** -/
theorem IsDRing.inverse (h : IsDRing k head l) {x : α} (hx : x ∈ head :: l) :
    k.prev (k.next x) = x ∧ k.next (k.prev x) = x := by
  obtain ⟨hforth, hback⟩ := seg_inverse h.seg
  refine ⟨hforth x hx, hback x ?_⟩
  rw [List.mem_append, List.mem_singleton]
  exact (List.mem_cons.mp hx).symm

theorem IsDRing.next_mem (h : IsDRing k head l) {x : α} (hx : x ∈ head :: l) :
    k.next x ∈ head :: l := by
  have hmem := next_mem_of_seg h.seg hx
  rw [List.mem_append, List.mem_singleton] at hmem
  exact List.mem_cons.mpr hmem.symm

theorem isDRing_nil : IsDRing k head [] ↔ k.next head = head ∧ k.prev head = head := by
  constructor
  · intro h
    exact h.seg
  · intro h
    exact ⟨List.nodup_singleton head, h⟩

/-- `list_empty` tells the empty list from the others. -/
theorem IsDRing.next_eq_head_iff (h : IsDRing k head l) : k.next head = head ↔ l = [] := by
  cases l with
  | nil => exact iff_of_true h.seg.1 rfl
  | cons x l =>
    have hx : k.next head = x := h.seg.1.1
    refine iff_of_false ?_ (List.cons_ne_nil x l)
    rw [hx]
    exact fun heq => h.notMem (heq ▸ List.mem_cons_self)

variable [DecidableEq α]

/-- **Adding an element at the tail.** -/
theorem IsDRing.addTail (h : IsDRing k head l) {new : α} (hnew : new ∉ head :: l) :
    IsDRing (k.listAddTail new head) head (l ++ [new]) := by
  have hlast : k.prev head ∈ head :: l := prev_mem_of_seg h.seg
  have hln : k.prev head ≠ new := ne_of_mem_of_not_mem hlast hnew
  have hnh : new ≠ head := fun heq => hnew (heq ▸ List.mem_cons_self)
  refine ⟨?_, seg_append.mpr ⟨seg_retarget h.nodup h.seg ⟨?_, ?_⟩ ?_ ?_, ?_⟩⟩
  · rw [← List.cons_append]
    exact List.Nodup.append h.nodup (List.nodup_singleton new) (by simpa using hnew)
  · simp [Links.listAddTail]
  · simp [Links.listAddTail]
  · -- only the last link changes
    intro x hx hne
    have hxn : x ≠ new := ne_of_mem_of_not_mem hx hnew
    simp [Links.listAddTail, hne, hxn]
  · intro x hx
    have hxn : x ≠ new := ne_of_mem_of_not_mem (List.mem_cons_of_mem _ hx) hnew
    have hxh : x ≠ head := ne_of_mem_of_not_mem hx h.notMem
    simp [Links.listAddTail, hxn, hxh]
  · simp [Seg, Links.listAddTail, hln.symm, hnh.symm]

/-- **Removing the first element.** -/
theorem IsDRing.delFirst {x : α} (poison₁ poison₂ : α) (h : IsDRing k head (x :: l)) :
    IsDRing (k.listDel poison₁ poison₂ x) head l := by
  obtain ⟨⟨hnext, hprev⟩, hrest⟩ := h.seg
  obtain ⟨hhead, hl⟩ := List.nodup_cons.mp h.nodup
  obtain ⟨hx, hl'⟩ := List.nodup_cons.mp hl
  have hhx : head ≠ x := fun heq => hhead (heq ▸ List.mem_cons_self)
  have hhl : head ∉ l := fun hmem => hhead (List.mem_cons_of_mem _ hmem)
  refine ⟨List.nodup_cons.mpr ⟨hhl, hl'⟩, ?_⟩
  cases l with
  | nil =>
    have hback : k.next x = head := hrest.1
    simp [Seg, Links.listDel, hprev, hback, hhx]
  | cons y l =>
    obtain ⟨⟨hxy, -⟩, hseg⟩ := hrest
    have hxl : x ∉ y :: l := hx
    have hyx : y ≠ x := ne_of_mem_of_not_mem List.mem_cons_self hxl
    obtain ⟨hyl, -⟩ := List.nodup_cons.mp hl'
    refine ⟨?_, seg_congr ?_ ?_ hseg⟩
    · simp [Links.listDel, hprev, hxy, hhx, hyx]
    · intro z hz
      have hzx : z ≠ x := ne_of_mem_of_not_mem hz hxl
      have hzh : z ≠ head := ne_of_mem_of_not_mem hz hhl
      simp [Links.listDel, hprev, hzx, hzh]
    · intro z hz
      rw [List.mem_append, List.mem_singleton] at hz
      have hzx : z ≠ x := by
        rcases hz with hz | rfl
        · exact ne_of_mem_of_not_mem (List.mem_cons_of_mem _ hz) hxl
        · exact hhx
      have hzy : z ≠ y := by
        rcases hz with hz | rfl
        · exact ne_of_mem_of_not_mem hz hyl
        · exact fun heq => hhl (heq ▸ List.mem_cons_self)
      simp [Links.listDel, hxy, hzx, hzy]

end KernelStudy
