import Mathlib.Data.Finset.Basic
import Mathlib.Tactic

/-!
# Trees of names

A tree whose nodes are reached from the root by names.  A node is a list of names,
and with a node the tree has everything above it.

## Main definitions

* `NameTree` — a finite set of nodes that is closed under prefixes.
* `NameTree.prune p` — the tree without `p` and all below it.
* `NameTree.Thins p t t'` — nodes strictly below `p` may be missing in `t'`.

## Main results

* `NameTree.mem_prune` — what is left.
* `NameTree.prune_of_thins` — thinning out what is pruned makes no difference.
* `NameTree.prune_eq_self_iff` — when there is nothing to prune.
-/

namespace KernelStudy

/-- A tree of names. -/
structure NameTree (α : Type*) where
  /-- The nodes. -/
  nodes : Finset (List α)
  closed : ∀ {p q}, p ∈ nodes → q <+: p → q ∈ nodes

namespace NameTree

variable {α : Type*} {t t' : NameTree α} {p q : List α}

/-- Nodes strictly below `p` may be missing in `t'`, and nothing else differs. -/
def Thins (p : List α) (t t' : NameTree α) : Prop :=
  t'.nodes ⊆ t.nodes ∧ ∀ q ∈ t.nodes, q ∉ t'.nodes → p <+: q ∧ q ≠ p

theorem Thins.refl (p : List α) (t : NameTree α) : Thins p t t :=
  ⟨Finset.Subset.refl _, fun _ hq hnot => absurd hq hnot⟩

theorem ext_nodes (h : t.nodes = t'.nodes) : t = t' := by
  cases t
  cases t'
  cases h
  rfl

variable [DecidableEq α]

/-- The tree without `p` and all below it. -/
def prune (t : NameTree α) (p : List α) : NameTree α where
  nodes := t.nodes.filter fun q => ¬ p <+: q
  closed := by
    intro q r hq hr
    rw [Finset.mem_filter] at hq ⊢
    exact ⟨t.closed hq.1 hr, fun hp => hq.2 (hp.trans hr)⟩

@[simp] theorem mem_prune : q ∈ (t.prune p).nodes ↔ q ∈ t.nodes ∧ ¬ p <+: q :=
  Finset.mem_filter

/-- **Thinning out what is pruned makes no difference.** -/
theorem prune_of_thins (h : Thins p t t') : t'.prune p = t.prune p := by
  apply ext_nodes
  ext q
  rw [mem_prune, mem_prune]
  constructor
  · rintro ⟨hq, hp⟩
    exact ⟨h.1 hq, hp⟩
  · rintro ⟨hq, hp⟩
    refine ⟨?_, hp⟩
    by_contra hnot
    exact hp (h.2 q hq hnot).1

/-- There is nothing to prune exactly if the node is not there. -/
theorem prune_eq_self_iff : t.prune p = t ↔ p ∉ t.nodes := by
  constructor
  · intro h hp
    rw [← h, mem_prune] at hp
    exact hp.2 List.prefix_rfl
  · intro h
    apply ext_nodes
    ext q
    rw [mem_prune]
    exact ⟨fun hq => hq.1, fun hq => ⟨hq, fun hp => h (t.closed hq hp)⟩⟩

end NameTree
end KernelStudy
