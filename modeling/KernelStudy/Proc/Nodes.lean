import KernelStudy.Proc.Hiding

/-!
# Nodes that nobody asked for

`proc_hack` looks a process up in `pid_array` and takes its node from
`node_array` at the same index.  It does not compare the lengths of the two
arrays, as `check_args` of `home_hack` does, and past its end `node_array` holds
zeros: a process without a counterpart there lands in node 0.

## Main definitions

* `Delivered` — the parameters as the module loader delivers them.
* `Supplied ps pid node` — the node is none, or one supplied for the process id.
* `FirstEntry ps pid k` — where the search for a process id ends.

## Main results

* `supplied_markOf_iff` — a process id gets a supplied node exactly when its
  entry has a counterpart.
* `initModule_supplied_iff` — **when a load assigns supplied nodes only.**
-/

namespace KernelStudy
namespace ProcHack

open Marking

/-- The parameters as the module loader delivers them: the entries from a count
on keep their initial 0. -/
structure Delivered (ps : Params) : Prop where
  pids : ∀ i, ps.pidArrayCount ≤ i → ps.pidArray i = 0
  nodes : ∀ i, ps.nodeArrayCount ≤ i → ps.nodeArray i = 0

/-- The node is none, or the administrator has supplied it for the process id. -/
def Supplied (ps : Params) (pid node : ℤ) : Prop :=
  node = -1 ∨ ∃ k, k < ps.nodeArrayCount ∧ ps.pidArray k = pid ∧ node = ps.nodeArray k

/-- `k` is the first entry for a process id, before any negative entry. -/
def FirstEntry (ps : Params) (pid : ℤ) (k : ℕ) : Prop := IsLeast {k | IsTarget ps pid k} k

variable {ps : Params} {pid : ℤ}

/-- A process id with an entry gets the node at its index, any other none. -/
theorem markOf_cases (ps : Params) (pid : ℤ) :
    (∃ k, FirstEntry ps pid k ∧ markOf ps pid = ps.nodeArray k) ∨
      ((∀ k, ¬ FirstEntry ps pid k) ∧ markOf ps pid = -1) := by
  rcases nodeOf_markOf ps pid with ⟨k, hk, hnode⟩ | ⟨hnone, hnode⟩
  · exact Or.inl ⟨k, hk, hnode⟩
  · exact Or.inr ⟨fun k hk => hnone k hk.1, hnode⟩

/-- **A process id gets a supplied node exactly when its entry has a
counterpart** in `node_array`. -/
theorem supplied_markOf_iff (hps : Delivered ps) :
    Supplied ps pid (markOf ps pid) ↔ ∀ k, FirstEntry ps pid k → k < ps.nodeArrayCount := by
  rcases markOf_cases ps pid with ⟨k, hk, hnode⟩ | ⟨hnone, hnode⟩
  · rw [hnode]
    constructor
    · intro h k' hk'
      obtain rfl : k' = k := hk'.unique hk
      by_contra hge
      -- the node is one of the zeros behind the end of the array
      have hzero := hps.nodes k' (by omega)
      rcases h with hneg | ⟨j, hj, hpid, -⟩
      · omega
      · -- and an earlier entry with the process id would have been found first
        have hjk : IsTarget ps pid j :=
          ⟨by have := hk.1.1; omega, hpid, fun i hi => hk.1.2.2 i (by omega)⟩
        have := hk.2 hjk
        omega
    · intro h
      exact Or.inr ⟨k, h k hk, hk.1.2.1, rfl⟩
  · exact iff_of_true (Or.inl hnode) fun k hk => absurd hk (hnone k)

/-- A process id is put into a node exactly when its entry has one. -/
theorem markOf_neg_iff :
    markOf ps pid < 0 ↔ ∀ k, FirstEntry ps pid k → ps.nodeArray k < 0 := by
  rcases markOf_cases ps pid with ⟨k, hk, hnode⟩ | ⟨hnone, hnode⟩
  · rw [hnode]
    constructor
    · intro h k' hk'
      rwa [hk'.unique hk]
    · intro h
      exact h k hk
  · rw [hnode]
    exact iff_of_true (by decide) fun k hk => absurd hk (hnone k)

/-- **When a load assigns supplied nodes only**: when no task of the list has its
entry behind the end of `node_array`.  That no process at all is put into a node
by arrays of different lengths asks for more: the lengths are equal, or the
entries of all tasks have no node. -/
theorem initModule_supplied_iff (addr : ℕ) {fuel : ℕ} {s : State} {rest : List TaskPtr}
    (hps : Delivered ps) (hring : IsRing (fun t => (s.tasks t).next) initTask rest)
    (hfuel : rest.length < fuel) :
    ∃ s', initModule addr fuel ps s = some (0, s') ∧
      ((∀ t ∈ initTask :: rest, Supplied ps (s.tasks t).pid (s'.tasks t).hpNode) ↔
        ∀ t ∈ initTask :: rest, ∀ k, FirstEntry ps (s.tasks t).pid k → k < ps.nodeArrayCount) ∧
      (((∀ t ∈ initTask :: rest, Supplied ps (s.tasks t).pid (s'.tasks t).hpNode) ∧
          (ps.pidArrayCount ≠ ps.nodeArrayCount → ∀ t ∈ initTask :: rest,
            (s'.tasks t).hpNode < 0)) ↔
        ps.pidArrayCount = ps.nodeArrayCount ∨
          ∀ t ∈ initTask :: rest, ∀ k, FirstEntry ps (s.tasks t).pid k → ps.nodeArray k < 0) := by
  have hmark : markProcess fuel ps s.tasks =
      some (marked ps (initTask :: rest) s.tasks, initTask :: rest) := markProcess_eq hring hfuel
  have hnode : ∀ t ∈ initTask :: rest,
      (marked ps (initTask :: rest) s.tasks t).hpNode = markOf ps (s.tasks t).pid := by
    intro t ht
    rw [marked, if_pos ht]
  have hsupplied : (∀ t ∈ initTask :: rest,
      Supplied ps (s.tasks t).pid (marked ps (initTask :: rest) s.tasks t).hpNode) ↔
      ∀ t ∈ initTask :: rest, ∀ k, FirstEntry ps (s.tasks t).pid k → k < ps.nodeArrayCount := by
    refine forall₂_congr fun t ht => ?_
    rw [hnode t ht]
    exact supplied_markOf_iff hps
  have hneg : (∀ t ∈ initTask :: rest, (marked ps (initTask :: rest) s.tasks t).hpNode < 0) ↔
      ∀ t ∈ initTask :: rest, ∀ k, FirstEntry ps (s.tasks t).pid k → ps.nodeArray k < 0 := by
    refine forall₂_congr fun t ht => ?_
    rw [hnode t ht]
    exact markOf_neg_iff
  refine ⟨_, by rw [initModule, hmark], hsupplied, ?_⟩
  dsimp only
  rw [hsupplied, hneg]
  constructor
  · rintro ⟨-, hmismatch⟩
    by_cases hcount : ps.pidArrayCount = ps.nodeArrayCount
    · exact Or.inl hcount
    · exact Or.inr (hmismatch hcount)
  · rintro (hcount | hall)
    · refine ⟨?_, fun hne => absurd hcount hne⟩
      intro t _ k hk
      rw [← hcount]
      exact hk.1.1
    · refine ⟨?_, fun _ => hall⟩
      intro t ht k hk
      by_contra hge
      have hzero := hps.nodes k (by omega)
      have := hall t ht k hk
      omega

theorem delivered_onePair (pid node : ℤ) : Delivered (onePair pid node) where
  pids := fun i hi => if_neg (by change 1 ≤ i at hi; omega)
  nodes := fun i hi => if_neg (by change 1 ≤ i at hi; omega)

/-- With one process id and one node the process gets that node. -/
theorem onePair_supplied : ∃ s',
    initModule 0x1000 2 (onePair 4232 1) Proc.unhooked = some (0, s') ∧
      ∀ t ∈ [0, 1], Supplied (onePair 4232 1) (Proc.unhooked.tasks t).pid (s'.tasks t).hpNode := by
  have hring : IsRing (fun t => (Proc.unhooked.tasks t).next) initTask [1] :=
    isRing_twoRing 0 4232
  have hfuel : ([1] : List TaskPtr).length < 2 := by decide
  obtain ⟨s', hload, hiff, -⟩ :=
    initModule_supplied_iff 0x1000 (delivered_onePair 4232 1) hring hfuel
  refine ⟨s', hload, hiff.mpr ?_⟩
  intro t _ k hk
  exact hk.1.1

/-- One process id, and no node. -/
def lonePid (pid : ℤ) : Params where
  pidArray := fun i => if i = 0 then pid else 0
  pidArrayCount := 1
  nodeArray := fun _ => 0
  nodeArrayCount := 0
  pidArrayCount_le := one_le_pidArrayMax
  nodeArrayCount_le := Nat.zero_le pidArrayMax

theorem delivered_lonePid (pid : ℤ) : Delivered (lonePid pid) where
  pids := fun i hi => if_neg (by change 1 ≤ i at hi; omega)
  nodes := fun _ _ => rfl

/-- Without any node the process is put into node 0. -/
theorem lone_pid_lands_in_node_zero :
    ¬ ∀ (addr fuel : ℕ) (ps : Params) (s s' : State) (rest : List TaskPtr), Delivered ps →
      IsRing (fun t => (s.tasks t).next) initTask rest →
      initModule addr fuel ps s = some (0, s') →
      ∀ t ∈ initTask :: rest, Supplied ps (s.tasks t).pid (s'.tasks t).hpNode := by
  intro h
  have hrun : (initModule 0x1000 2 (lonePid 4232) Proc.unhooked).map
      (fun r => (r.1, (r.2.tasks 1).hpNode)) = some (0, 0) := by decide
  obtain ⟨⟨ret, s'⟩, hload, hres⟩ := Option.map_eq_some_iff.mp hrun
  obtain ⟨rfl, hnode⟩ := Prod.mk.inj hres
  have hbad := h 0x1000 2 (lonePid 4232) Proc.unhooked s' [1] (delivered_lonePid 4232)
    (isRing_twoRing 0 4232) hload 1 (by decide)
  dsimp only at hnode
  rw [hnode] at hbad
  rcases hbad with hneg | ⟨k, hk, -⟩
  · omega
  · exact absurd hk (Nat.not_lt_zero k)

end ProcHack
end KernelStudy
