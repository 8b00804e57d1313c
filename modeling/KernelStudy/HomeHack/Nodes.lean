import KernelStudy.HomeHack.Path
import KernelStudy.Marking

/-!
# The directories of different nodes

A node number reaches the path through `"%05ld"`, which is a least width, a
buffer of twelve bytes, which is wide enough, and a copy of eight bytes, which is
not: from the sixth digit on a number is cut off.  Nothing bounds the numbers in
`node_array`, so two nodes whose numbers start with the same five digits share a
directory.

## Main definitions

* `Placement s` — a caller's memory with the path `s` behind eight writable bytes.
* `NodesApart` — two tasks are sent to different directories.

## Main results

* `Placement.result_iff` — the string that is handed out.
* `dirBytes_eq_iff` — the nodes that get the same directory.
* `nodesApart_iff` — **the node numbers that are told apart.**
-/

namespace KernelStudy
namespace HomeHack

open Marking

/-! ### A path and what becomes of it -/

/-- A caller's memory with the path `s` in it, behind eight bytes that can be
written. -/
structure Placement (s : List UInt8) where
  /-- The protection of the caller's memory. -/
  prot : ProtMap
  /-- The caller's memory. -/
  mem : Mem
  /-- What the kernel stack holds where `tmp_buf` lies. -/
  tmp : ℕ → UInt8
  /-- The address of the path. -/
  filename : Addr
  string : StringAt prot mem filename s
  window : ∀ x, Window filename x → Writable prot x

/-- The string at the address that `replace_path_if_necessary` returns is `r`. -/
def Placement.Result {s : List UInt8} (c : Placement s) (current : TaskStruct) (r : List UInt8) :
    Prop :=
  StringAt c.prot (replacePathIfNecessary c.prot c.tmp c.mem current c.filename).2.1
    (replacePathIfNecessary c.prot c.tmp c.mem current c.filename).1 r

/-- **The string handed out** for a home path: the eight bytes copied, then the
path. -/
theorem Placement.result_iff {s : List UInt8} (hhome : homedirPrefix <+: s) (c : Placement s)
    (current : TaskStruct) (r : List UInt8) :
    c.Result current r ↔ r = dirBytes current.hpNode ++ s := by
  unfold Placement.Result
  rw [replacePathIfNecessary_of_homePath (homePath_of_stringAt c.string hhome)]
  dsimp only
  rw [stringAt_rewritten c.window]
  constructor
  · rintro ⟨t, ht, rfl⟩
    rw [stringAt_unique t s c.filename ht c.string]
  · intro hr
    exact ⟨s, c.string, hr⟩

/-- Two tasks are sent to different directories for the same path, and every
byte of these is one that `snprintf` printed. -/
structure NodesApart {s : List UInt8} (c₁ c₂ : Placement s) (k₁ k₂ : TaskStruct) : Prop where
  strings : ∃ r₁ r₂, c₁.Result k₁ r₁ ∧ c₂.Result k₂ r₂ ∧ r₁ ≠ r₂
  written : ∀ k ∈ [k₁, k₂], ∀ tmp : ℕ → UInt8, ∀ i < backupLen,
    (nodeDir k.hpNode)[i]? = some (snprintf tmp 12 (nodeDir k.hpNode) i)

/-- The directories alone decide. -/
theorem nodesApart_iff_dirBytes {s : List UInt8} (hhome : homedirPrefix <+: s)
    (c₁ c₂ : Placement s) (k₁ k₂ : TaskStruct) :
    NodesApart c₁ c₂ k₁ k₂ ↔ dirBytes k₁.hpNode ≠ dirBytes k₂.hpNode := by
  constructor
  · rintro ⟨⟨r₁, r₂, h₁, h₂, hne⟩, -⟩ heq
    rw [c₁.result_iff hhome] at h₁
    rw [c₂.result_iff hhome] at h₂
    exact hne (by rw [h₁, h₂, heq])
  · intro hne
    refine ⟨⟨_, _, (c₁.result_iff hhome _ _).mpr rfl, (c₂.result_iff hhome _ _).mpr rfl, ?_⟩, ?_⟩
    · intro heq
      exact hne (List.append_cancel_right heq)
    · intro k _ tmp i hi
      have hlen := backupLen_le_length_nodeDir k.hpNode
      have hi12 : i + 1 < 12 := by
        unfold backupLen at hi
        omega
      rw [snprintf_of_lt tmp (by omega) hi12, List.getElem?_eq_getElem]

/-! ### Which nodes share a directory -/

/-- The directory of a node with a number is that of the leading five digits. -/
theorem dirBytes_of_nonneg {node : ℤ} (h0 : 0 ≤ node) :
    dirBytes node = bytes "/j/" ++ fixedDigits 5 (leading 5 node.toNat) := by
  have habs : node.natAbs = node.toNat := by omega
  have hsplit : backupLen = (bytes "/j/").length + 5 := by decide
  rw [dirBytes, nodeDir, padText, if_neg (by omega), habs, hsplit, List.take_length_add_append,
    take_zeroFill_natText (by omega)]

/-- No number is printed like the mark of the tasks without a node. -/
theorem dirBytes_ne_none {node : ℤ} (h0 : 0 ≤ node) : dirBytes node ≠ dirBytes (-1) := by
  have hnone : dirBytes (-1) = bytes "/j/" ++ bytes "-0001" := by decide
  rw [dirBytes_of_nonneg h0, hnone]
  intro heq
  have hmem : (45 : UInt8) ∈ fixedDigits 5 (leading 5 node.toNat) := by
    rw [List.append_cancel_left heq]
    decide
  have := (mem_fixedDigits _ _ hmem).1
  revert this
  decide

theorem dirBytes_eq_iff {n k : ℤ} (hn : 0 ≤ n) (hk : 0 ≤ k) :
    dirBytes n = dirBytes k ↔ leading 5 n.toNat = leading 5 k.toNat := by
  rw [dirBytes_of_nonneg hn, dirBytes_of_nonneg hk]
  constructor
  · intro heq
    exact fixedDigits_inj 5 (leading_lt 5 _) (leading_lt 5 _) (List.append_cancel_left heq)
  · intro heq
    rw [heq]

/-- What `mark_process` leaves in a task it visits: a number of the table, or the
mark of the tasks without a node. -/
theorem marked_hpNode_cases {ps : Params} (hok : (checkArgs ps).1 = 0)
    (hnodes : ∀ k < ps.nodeArrayCount, 0 ≤ ps.nodeArray k) {l : List TaskPtr} (tasks : TaskHeap)
    {t : TaskPtr} (ht : t ∈ l) :
    0 ≤ (marked ps l tasks t).hpNode ∨ (marked ps l tasks t).hpNode = -1 := by
  have hcount : ps.pidArrayCount = ps.nodeArrayCount := by
    unfold checkArgs at hok
    by_contra hne
    rw [if_pos hne, ite_self] at hok
    change (-1 : ℤ) = 0 at hok
    omega
  rw [marked, if_pos ht]
  rcases nodeOf_markOf ps (tasks t).pid with ⟨k, hk, hnode⟩ | ⟨-, hnode⟩
  · have hlt : k < ps.nodeArrayCount := hcount ▸ hk.1.1
    have hpos := hnodes k hlt
    dsimp only
    omega
  · exact Or.inr hnode

/-- **Two tasks with different nodes are sent to different directories** unless
both have a number and the numbers start with the same five digits. -/
theorem nodesApart_iff (ps : Params) (hok : (checkArgs ps).1 = 0)
    (hnodes : ∀ k < ps.nodeArrayCount, 0 ≤ ps.nodeArray k) {tasks tasks' : TaskHeap}
    {rest visited : List TaskPtr} {fuel : ℕ}
    (hring : IsRing (fun t => (tasks t).next) initTask rest) (hfuel : rest.length < fuel)
    (hmark : markProcess fuel (checkArgs ps).2 tasks = some (tasks', visited))
    {t₁ t₂ : TaskPtr} (ht₁ : t₁ ∈ initTask :: rest) (ht₂ : t₂ ∈ initTask :: rest)
    (hne : (tasks' t₁).hpNode ≠ (tasks' t₂).hpNode) {s : List UInt8}
    (hhome : homedirPrefix <+: s) (c₁ c₂ : Placement s) :
    NodesApart c₁ c₂ (tasks' t₁) (tasks' t₂) ↔
      ¬ (0 ≤ (tasks' t₁).hpNode ∧ 0 ≤ (tasks' t₂).hpNode ∧
        leading 5 (tasks' t₁).hpNode.toNat = leading 5 (tasks' t₂).hpNode.toNat) := by
  have hrun : markProcess fuel (checkArgs ps).2 tasks = some (_, initTask :: rest) :=
    markProcess_eq hring hfuel
  rw [marked_checkArgs] at hrun
  obtain ⟨rfl, -⟩ : tasks' = marked ps (initTask :: rest) tasks ∧ visited = initTask :: rest := by
    rw [← Prod.mk.injEq, ← Option.some.injEq]
    exact hmark.symm.trans hrun
  rw [nodesApart_iff_dirBytes hhome, ne_eq, not_iff_not]
  rcases marked_hpNode_cases hok hnodes tasks ht₁ with h₁ | h₁ <;>
    rcases marked_hpNode_cases hok hnodes tasks ht₂ with h₂ | h₂
  · rw [dirBytes_eq_iff h₁ h₂]
    exact ⟨fun h => ⟨h₁, h₂, h⟩, fun h => h.2.2⟩
  · rw [h₂]
    exact iff_of_false (dirBytes_ne_none h₁) fun h => absurd h.2.1 (by decide)
  · rw [h₁]
    exact iff_of_false (dirBytes_ne_none h₂).symm fun h => absurd h.1 (by decide)
  · -- two tasks without a node do not differ
    exact absurd (h₁.trans h₂.symm) hne

/-- Two parameter pairs. -/
def twoPairs (pid₀ node₀ pid₁ node₁ : ℤ) : Params where
  pidArray := fun i => if i = 0 then pid₀ else if i = 1 then pid₁ else 0
  pidArrayCount := 2
  nodeArray := fun i => if i = 0 then node₀ else if i = 1 then node₁ else 0
  nodeArrayCount := 2
  pidArrayCount_le := by decide
  nodeArrayCount_le := by decide

/-- A path in memory that can be written throughout. -/
def placementOf (s : List UInt8)
    (hs : StringAt (fun _ => .writable) (textAt 0x1010#32 s) 0x1010#32 s) : Placement s where
  prot := fun _ => .writable
  mem := textAt 0x1010#32 s
  tmp := fun _ => 0
  filename := 0x1010#32
  string := hs
  window := fun _ hx => writable_of_window (by decide) (by decide) hx

/-- A home path there. -/
def homePlacement : Placement (bytes "/home/a") := placementOf _ (by decide)

/-- The tasks of `twoRing 0 11` after both got a node. -/
theorem markProcess_twoPairs (node₀ node₁ : ℤ) :
    ∃ tasks', markProcess 2 (checkArgs (twoPairs 0 node₀ 11 node₁)).2 (twoRing 0 11) =
        some (tasks', [0, 1]) ∧ (tasks' 0).hpNode = node₀ ∧ (tasks' 1).hpNode = node₁ := by
  have hfuel : ([1] : List TaskPtr).length < 2 := by decide
  exact ⟨_, markProcess_eq (isRing_twoRing 0 11) hfuel, rfl, rfl⟩

/-- Nodes 1 and 2 have directories of their own. -/
theorem small_nodes_apart :
    ∃ tasks', markProcess 2 (checkArgs (twoPairs 0 1 11 2)).2 (twoRing 0 11) =
        some (tasks', [0, 1]) ∧
      NodesApart homePlacement homePlacement (tasks' 0) (tasks' 1) := by
  obtain ⟨tasks', hmark, h₀, h₁⟩ := markProcess_twoPairs 1 2
  have hnodes : ∀ k < (twoPairs 0 1 11 2).nodeArrayCount, 0 ≤ (twoPairs 0 1 11 2).nodeArray k := by
    decide
  refine ⟨tasks', hmark, (nodesApart_iff (twoPairs 0 1 11 2) rfl hnodes (isRing_twoRing 0 11)
    (by decide) hmark (by decide) (by decide) ?_ (by decide) _ _).mpr ?_⟩
  · rw [h₀, h₁]
    decide
  · rw [h₀, h₁]
    rintro ⟨-, -, hlead⟩
    rw [leading_of_lt (by decide), leading_of_lt (by decide)] at hlead
    exact absurd hlead (by decide)

/-- Nodes 100000 and 100001 share a directory. -/
theorem large_nodes_share_directory :
    ¬ ∀ (ps : Params) (tasks tasks' : TaskHeap) (rest visited : List TaskPtr) (fuel : ℕ)
        (t₁ t₂ : TaskPtr) (s : List UInt8) (c₁ c₂ : Placement s),
      (checkArgs ps).1 = 0 → (∀ k < ps.nodeArrayCount, 0 ≤ ps.nodeArray k) →
      IsRing (fun t => (tasks t).next) initTask rest →
      markProcess fuel (checkArgs ps).2 tasks = some (tasks', visited) →
      t₁ ∈ initTask :: rest → t₂ ∈ initTask :: rest →
      (tasks' t₁).hpNode ≠ (tasks' t₂).hpNode → homedirPrefix <+: s →
      NodesApart c₁ c₂ (tasks' t₁) (tasks' t₂) := by
  intro h
  obtain ⟨tasks', hmark, h₀, h₁⟩ := markProcess_twoPairs 100000 100001
  have hne : (tasks' 0).hpNode ≠ (tasks' 1).hpNode := by
    rw [h₀, h₁]
    decide
  have hapart := h (twoPairs 0 100000 11 100001) (twoRing 0 11) tasks' [1] [0, 1] 2 0 1
    (bytes "/home/a") homePlacement homePlacement rfl (by decide) (isRing_twoRing 0 11) hmark
    (by decide) (by decide) hne (by decide)
  rw [nodesApart_iff_dirBytes (by decide), h₀, h₁] at hapart
  exact hapart (by decide)

end HomeHack
end KernelStudy
