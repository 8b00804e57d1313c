import KernelStudy.Lib.Text
import KernelStudy.Lib.UserSpace
import KernelStudy.Task

/-!
# Rewriting a home path in place

`replace_path_if_necessary` of `home_hack.c` turns a path below `/home/` into
one below the caller's node directory.  It does so in the caller's own memory:
the eight bytes in front of the path are saved in `current->hp_buf` and then
overwritten with `/j/` and the node number, and the address eight bytes before
the path is handed to the original system call.  `restore_path` puts the saved
bytes back.  Neither function looks at the result of `get_user` or `put_user`.

## Main definitions

* `replacePathIfNecessary`, `restorePath` — the two functions.
* `HomePath p m f` — the six bytes at `f` can be read and are `/home/`.
* `Window f` — the eight bytes in front of `f`.

## Main results

* `replacePathIfNecessary_of_homePath`, `replacePathIfNecessary_of_not_homePath`
  — what the rewrite does in the two cases.
* `rewritten_of_window`, `rewritten_of_not_window` — the memory after a rewrite,
  byte by byte.
* `pathContract_iff` — **the rewrite keeps its contract exactly when it does not
  hand out the null address**, which it does for a home path at address 8.
* `restore_after_writes_iff` — **what the system call wrote survives the restore
  exactly when the window is left as it was.**
-/

namespace KernelStudy
namespace HomeHack

/-! ### The two functions -/

/-- `HOMEDIR_PREFIX`. -/
def homedirPrefix : List UInt8 := bytes "/home/"

/-- What `snprintf` formats: `"/j/%05ld"` with the node of the caller. -/
def nodeDir (node : ℤ) : List UInt8 := bytes "/j/" ++ padText 5 node

/-- `replace_path_if_necessary`: the returned address, the memory, and the
caller with its backup.  `tmp` is what the stack held where `tmp_buf` lies. -/
def replacePathIfNecessary (p : ProtMap) (tmp : ℕ → UInt8) (m : Mem) (current : TaskStruct)
    (filename : Addr) : Addr × Mem × TaskStruct :=
  let filenamePrefix := getBytes p m filename 12
  if strncmp filenamePrefix homedirPrefix homedirPrefix.length ≠ 0 then
    (0#32, m, current)
  else
    let current' := { current with
      hpBuf := fun i => getUser p m (filename - 8#32 + BitVec.ofNat 32 i) }
    let tmpBuf := snprintf tmp 12 (nodeDir current'.hpNode)
    let m' := putBytes p m (filename - 8#32) ((List.range backupLen).map tmpBuf)
    (filename - 8#32, m', current')

/-- `restore_path`. -/
def restorePath (p : ProtMap) (m : Mem) (current : TaskStruct) (filename : Addr) : Mem :=
  putBytes p m (filename - 8#32) (List.ofFn current.hpBuf)

/-! ### When a path is rewritten -/

/-- The six bytes at `f` can be read and are `/home/`. -/
def HomePath (p : ProtMap) (m : Mem) (f : Addr) : Prop :=
  ∀ i (h : i < homedirPrefix.length),
    Readable p (f + BitVec.ofNat 32 i) ∧ m (f + BitVec.ofNat 32 i) = homedirPrefix[i]

instance (p : ProtMap) (m : Mem) (f : Addr) : Decidable (HomePath p m f) :=
  inferInstanceAs (Decidable (∀ i (_ : i < homedirPrefix.length), _ ∧ _))

theorem ne_zero_of_mem_homedirPrefix : ∀ c ∈ homedirPrefix, c ≠ 0 :=
  fun _ hc => ne_of_mem_of_not_mem hc (by decide)

/-- The comparison of the twelve bytes read is a test of the first six. -/
theorem strncmp_getBytes_iff {p : ProtMap} {m : Mem} {f : Addr} :
    strncmp (getBytes p m f 12) homedirPrefix homedirPrefix.length = 0 ↔ HomePath p m f := by
  have hlen : homedirPrefix.length ≤ 12 := by decide
  rw [strncmp_eq_zero_iff _ _ ne_zero_of_mem_homedirPrefix (by simpa using hlen),
    take_getBytes_eq_iff hlen]
  refine forall_congr' fun i => forall_congr' fun hi => ?_
  exact getUser_eq_iff (ne_zero_of_mem_homedirPrefix _ (List.getElem_mem hi))

/-- `x` is one of the eight bytes in front of `f`. -/
def Window (f x : Addr) : Prop := InWindow (f - 8#32) backupLen x

instance (f x : Addr) : Decidable (Window f x) := inferInstanceAs (Decidable (InWindow _ _ _))

/-- The bytes saved before a rewrite at `f`. -/
def backup (p : ProtMap) (m : Mem) (f : Addr) : Fin backupLen → UInt8 :=
  fun i => getUser p m (f - 8#32 + BitVec.ofNat 32 i)

/-- The memory after a rewrite at `f`. -/
def rewritten (p : ProtMap) (tmp : ℕ → UInt8) (m : Mem) (node : ℤ) (f : Addr) : Mem :=
  putBytes p m (f - 8#32) ((List.range backupLen).map (snprintf tmp 12 (nodeDir node)))

variable {p : ProtMap} {tmp : ℕ → UInt8} {m : Mem} {current : TaskStruct} {f : Addr}

theorem replacePathIfNecessary_of_homePath (h : HomePath p m f) :
    replacePathIfNecessary p tmp m current f =
      (f - 8#32, rewritten p tmp m current.hpNode f, { current with hpBuf := backup p m f }) := by
  unfold replacePathIfNecessary
  simp only [strncmp_getBytes_iff.mpr h, ne_eq, not_true_eq_false, if_false]
  rfl

theorem replacePathIfNecessary_of_not_homePath (h : ¬ HomePath p m f) :
    replacePathIfNecessary p tmp m current f = (0#32, m, current) := by
  unfold replacePathIfNecessary
  rw [if_pos fun h0 => h (strncmp_getBytes_iff.mp h0)]

/-! ### The window, byte by byte -/

/-- The place of a byte of the window in the backup. -/
def Window.index {f x : Addr} (hx : Window f x) : Fin backupLen := ⟨(x - (f - 8#32)).toNat, hx⟩

theorem Window.base_add_index {f x : Addr} (hx : Window f x) :
    f - 8#32 + BitVec.ofNat 32 hx.index = x := by
  change f - 8#32 + BitVec.ofNat 32 (x - (f - 8#32)).toNat = x
  rw [BitVec.ofNat_toNat, BitVec.setWidth_eq]
  bv_omega

theorem backup_index {x : Addr} (hx : Window f x) : backup p m f hx.index = getUser p m x := by
  unfold backup
  rw [hx.base_add_index]

/-- A loop of eight stores in front of `f` leaves the memory alone outside the
window, and where the window cannot be written. -/
theorem putBytes_of_not_window {bs : List UInt8} (hlen : bs.length = backupLen) {x : Addr}
    (hx : ¬ (Writable p x ∧ Window f x)) : putBytes p m (f - 8#32) bs x = m x := by
  by_cases hw : Writable p x
  · refine putBytes_of_not_inWindow p (by rw [hlen]; decide) ?_
    rw [hlen]
    exact fun h => hx ⟨hw, h⟩
  · rw [putBytes_apply p _ _ _ _ (by rw [hlen]; decide), if_neg hw]

/-- In the writable part of the window it leaves the byte meant for it. -/
theorem putBytes_of_window {bs : List UInt8} (hlen : bs.length = backupLen) {x : Addr}
    (hw : Writable p x) (hx : Window f x) :
    putBytes p m (f - 8#32) bs x = bs[hx.index.val] := by
  have hi : (x - (f - 8#32)).toNat < bs.length := by rw [hlen]; exact hx
  rw [putBytes_apply p _ _ _ _ (by rw [hlen]; decide), if_pos hw, List.getElem?_eq_getElem hi]
  rfl

theorem rewritten_of_not_window {node : ℤ} {x : Addr} (hx : ¬ (Writable p x ∧ Window f x)) :
    rewritten p tmp m node f x = m x :=
  putBytes_of_not_window (by simp) hx

/-- The writable bytes of the window get the bytes of `tmp_buf`. -/
theorem rewritten_of_window {node : ℤ} {x : Addr} (hw : Writable p x) (hx : Window f x) :
    rewritten p tmp m node f x = snprintf tmp 12 (nodeDir node) hx.index := by
  unfold rewritten
  rw [putBytes_of_window (by simp) hw hx]
  simp

theorem restorePath_of_not_window {x : Addr} (hx : ¬ (Writable p x ∧ Window f x)) :
    restorePath p m current f x = m x :=
  putBytes_of_not_window List.length_ofFn hx

theorem restorePath_of_window {x : Addr} (hw : Writable p x) (hx : Window f x) :
    restorePath p m current f x = current.hpBuf hx.index := by
  unfold restorePath
  rw [putBytes_of_window List.length_ofFn hw hx, List.getElem_ofFn]

/-- **The undo.**  Restoring after a rewrite yields the memory that was backed
up: a byte that could be overwritten could also be read. -/
theorem restorePath_rewritten (node : ℤ) :
    restorePath p (rewritten p tmp m node f) { current with hpBuf := backup p m f } f = m := by
  funext x
  by_cases hx : Writable p x ∧ Window f x
  · rw [restorePath_of_window hx.1 hx.2]
    exact (backup_index hx.2).trans (getUser_of_readable hx.1.readable)
  · rw [restorePath_of_not_window hx, rewritten_of_not_window hx]

/-! ### The rewritten string -/

/-- The directory of a node with a five-digit number: what a rewrite is meant to
put in front of the path. -/
def nodePath (node : ℤ) : List UInt8 := bytes "/j/" ++ fixedDigits 5 node.toNat

@[simp] theorem length_nodePath (node : ℤ) : (nodePath node).length = backupLen := by
  simp only [nodePath, List.length_append, length_fixedDigits]
  decide

/-- A node number of at most five digits is formatted to exactly five. -/
theorem nodeDir_eq_nodePath {node : ℤ} (h0 : 0 ≤ node) (h5 : node ≤ 99999) :
    nodeDir node = nodePath node := by
  rw [nodeDir, padText_of_lt (by omega) h0 (by omega), nodePath]

/-- Whatever the node, `snprintf` fills the eight bytes that are copied. -/
theorem backupLen_le_length_nodeDir (node : ℤ) : backupLen ≤ (nodeDir node).length := by
  have hpad := le_length_padText 5 node
  have hslash : (bytes "/j/").length = 3 := by decide
  rw [nodeDir, List.length_append, hslash]
  unfold backupLen
  omega

theorem ne_zero_of_mem_nodeDir {node : ℤ} {c : UInt8} (hc : c ∈ nodeDir node) : c ≠ 0 := by
  rw [nodeDir, List.mem_append] at hc
  rcases hc with hc | hc
  · exact ne_of_mem_of_not_mem hc (by decide)
  · exact ne_zero_of_mem_padText hc

/-- The bytes that a rewrite copies in front of the path. -/
def dirBytes (node : ℤ) : List UInt8 := (nodeDir node).take backupLen

@[simp] theorem length_dirBytes (node : ℤ) : (dirBytes node).length = backupLen :=
  List.length_take_of_le (backupLen_le_length_nodeDir node)

theorem dirBytes_eq_nodePath {node : ℤ} (h0 : 0 ≤ node) (h5 : node ≤ 99999) :
    dirBytes node = nodePath node := by
  rw [dirBytes, nodeDir_eq_nodePath h0 h5]
  exact List.take_of_length_le (length_nodePath node).le

/-- The bytes copied from `tmp_buf` are those that `snprintf` has put there. -/
theorem snprintf_nodeDir (tmp : ℕ → UInt8) {node : ℤ} {i : ℕ} (hi : i < (dirBytes node).length) :
    snprintf tmp 12 (nodeDir node) i = (dirBytes node)[i] := by
  have hi8 : i < 8 := by simpa [backupLen] using hi
  have hlen : 8 ≤ (nodeDir node).length := backupLen_le_length_nodeDir node
  rw [snprintf_of_lt tmp (by omega) (by omega)]
  simp [dirBytes]

/-- With a writable window the eight bytes in front of the path are the node's
directory. -/
theorem rewritten_window {node : ℤ} (hwin : ∀ x, Window f x → Writable p x) {i : ℕ}
    (hi : i < (dirBytes node).length) :
    Readable p (f - 8#32 + BitVec.ofNat 32 i) ∧
      rewritten p tmp m node f (f - 8#32 + BitVec.ofNat 32 i) = (dirBytes node)[i] ∧
      (dirBytes node)[i] ≠ 0 := by
  have hi8 : i < 8 := by simpa [backupLen] using hi
  have hoff : (f - 8#32 + BitVec.ofNat 32 i - (f - 8#32)).toNat = i :=
    toNat_add_ofNat_sub (by omega)
  have hx : Window f (f - 8#32 + BitVec.ofNat 32 i) := by
    change (f - 8#32 + BitVec.ofNat 32 i - (f - 8#32)).toNat < 8
    omega
  refine ⟨(hwin _ hx).readable, ?_,
    ne_zero_of_mem_nodeDir (List.mem_of_mem_take (List.getElem_mem hi))⟩
  rw [rewritten_of_window (hwin _ hx) hx]
  change snprintf tmp 12 (nodeDir node) (f - 8#32 + BitVec.ofNat 32 i - (f - 8#32)).toNat = _
  rw [hoff, snprintf_nodeDir tmp hi]

/-- A writable window does not wrap, so it lies below everything from the path
up that can be read. -/
theorem not_window_of_le (hwin : ∀ x, Window f x → Writable p x) {x : Addr}
    (hx : f.toNat ≤ x.toNat) (hr : Readable p x) : ¬ Window f x := by
  have hbase : Window f (f - 8#32) := by
    change (f - 8#32 - (f - 8#32)).toNat < 8
    bv_omega
  have hlo := (hwin _ hbase).1
  have hhi := hr.1
  unfold taskSize at hlo hhi
  intro h
  have h8 : (x - (f - 8#32)).toNat < 8 := h
  bv_omega

/-- **The string after a rewrite** is the string before it behind the eight bytes
copied, whatever the node. -/
theorem stringAt_rewritten {node : ℤ} (hwin : ∀ x, Window f x → Writable p x) (s : List UInt8) :
    StringAt p (rewritten p tmp m node f) (f - 8#32) s ↔
      ∃ t, StringAt p m f t ∧ s = dirBytes node ++ t := by
  have hback : f - 8#32 + BitVec.ofNat 32 (dirBytes node).length = f := by
    rw [length_dirBytes]
    change f - 8#32 + 8#32 = f
    bv_omega
  have htail : ∀ t, StringAt p (rewritten p tmp m node f) f t ↔ StringAt p m f t := by
    intro t
    refine stringAt_congr t f fun x hx hr => ?_
    exact rewritten_of_not_window fun h => not_window_of_le hwin hx hr h.2
  constructor
  · intro hs
    obtain ⟨t, rfl⟩ := append_of_stringAt (dirBytes node) s (f - 8#32)
      (fun i hi => (rewritten_window hwin hi).2) hs
    have ht := ((stringAt_append (dirBytes node) t (f - 8#32)).mp hs).2
    rw [hback] at ht
    exact ⟨t, (htail t).mp ht, rfl⟩
  · rintro ⟨t, ht, rfl⟩
    refine (stringAt_append (dirBytes node) t (f - 8#32)).mpr ⟨?_, ?_⟩
    · exact fun i hi => rewritten_window hwin hi
    · rw [hback]
      exact (htail t).mpr ht

/-! ### The contract -/

/-- The address handed out for a path at 8 is null, and no other is. -/
theorem sub_eight_eq_zero_iff {f : Addr} : f - 8#32 = 0#32 ↔ f = 8#32 := by
  constructor
  · intro h
    bv_omega
  · rintro rfl
    rfl

/-- What callers rely on: a null result means that nothing happened, any other
result is the rewritten path, and the rewrite can be undone. -/
structure PathContract (p : ProtMap) (tmp : ℕ → UInt8) (m : Mem) (current : TaskStruct)
    (f : Addr) : Prop where
  /-- The result says whether the path is a home path. -/
  nonNull_iff : (replacePathIfNecessary p tmp m current f).1 ≠ 0#32 ↔ HomePath p m f
  /-- A null result leaves user memory and the backup alone. -/
  unchanged : (replacePathIfNecessary p tmp m current f).1 = 0#32 →
    (replacePathIfNecessary p tmp m current f).2 = (m, current)
  /-- Otherwise the string at the result is the node's directory and the path. -/
  string : (replacePathIfNecessary p tmp m current f).1 ≠ 0#32 →
    (∀ x, Window f x → Writable p x) → 0 ≤ current.hpNode → current.hpNode ≤ 99999 →
    (∀ s, StringAt p (replacePathIfNecessary p tmp m current f).2.1
        (replacePathIfNecessary p tmp m current f).1 s ↔
      ∃ t, StringAt p m f t ∧ s = nodePath current.hpNode ++ t) ∧
    ∀ x, ¬ Window f x → (replacePathIfNecessary p tmp m current f).2.1 x = m x
  /-- And `restore_path` undoes the rewrite. -/
  restored : (replacePathIfNecessary p tmp m current f).1 ≠ 0#32 →
    restorePath p (replacePathIfNecessary p tmp m current f).2.1
      (replacePathIfNecessary p tmp m current f).2.2 f = m

/-- **The contract holds exactly when the rewritten path does not start at the
null address**, which is the address handed out for a home path at 8. -/
theorem pathContract_iff (p : ProtMap) (tmp : ℕ → UInt8) (m : Mem) (current : TaskStruct)
    (f : Addr) : PathContract p tmp m current f ↔ ¬ (f = 8#32 ∧ HomePath p m f) := by
  constructor
  · rintro hc ⟨rfl, hp⟩
    have hne := hc.nonNull_iff.mpr hp
    rw [replacePathIfNecessary_of_homePath hp] at hne
    exact hne rfl
  · intro h
    by_cases hp : HomePath p m f
    · have hne : f - 8#32 ≠ 0#32 := fun h0 => h ⟨sub_eight_eq_zero_iff.mp h0, hp⟩
      have heq : replacePathIfNecessary p tmp m current f = _ :=
        replacePathIfNecessary_of_homePath hp
      refine ⟨?_, ?_, ?_, ?_⟩ <;> rw [heq] <;> dsimp only
      · exact iff_of_true hne hp
      · exact fun h0 => absurd h0 hne
      · intro _ hwin h0 h5
        rw [← dirBytes_eq_nodePath h0 h5]
        exact ⟨stringAt_rewritten hwin, fun x hx => rewritten_of_not_window fun hw => hx hw.2⟩
      · exact fun _ => restorePath_rewritten _
    · have heq : replacePathIfNecessary p tmp m current f = _ :=
        replacePathIfNecessary_of_not_homePath hp
      refine ⟨?_, ?_, ?_, ?_⟩ <;> rw [heq] <;> dsimp only
      · exact iff_of_false (fun hne => hne rfl) hp
      · exact fun _ => rfl
      · exact fun hne => absurd rfl hne
      · exact fun hne => absurd rfl hne

/-- A home path at address 8 is rewritten, and the caller is told that it was
not. -/
theorem not_pathContract_at_eight :
    ¬ PathContract (fun _ => .writable) (fun _ => 0) (textAt 8#32 (bytes "/home/a"))
      ⟨1, 1, 1, fun _ => 0, 0⟩ 8#32 := by
  intro hc
  have hp : HomePath (fun _ => .writable) (textAt 8#32 (bytes "/home/a")) 8#32 := by decide
  have hne := hc.nonNull_iff.mpr hp
  rw [replacePathIfNecessary_of_homePath hp] at hne
  exact hne rfl

/-! ### The system call in between -/

/-- The string at `f` starts with `/home/`. -/
theorem homePath_of_stringAt {s : List UInt8} (hs : StringAt p m f s)
    (hhome : homedirPrefix <+: s) : HomePath p m f := by
  obtain ⟨t, rfl⟩ := hhome
  intro i hi
  have h := ((stringAt_append homedirPrefix t f).mp hs).1 i hi
  exact ⟨h.1, h.2.1⟩

/-- **What the system call wrote survives the restore exactly when it leaves
every byte of the window as it was before the rewrite.** -/
theorem restore_after_writes_iff {s : List UInt8} (hs : StringAt p m f s)
    (hhome : homedirPrefix <+: s) (hwin : ∀ x, Window f x → Writable p x)
    (tmp : ℕ → UInt8) (current : TaskStruct) (ws : List (Addr × UInt8)) :
    restorePath p (applyWrites (replacePathIfNecessary p tmp m current f).2.1 ws)
        (replacePathIfNecessary p tmp m current f).2.2 f = applyWrites m ws ↔
      ∀ x b, Window f x → lastWrite ws x = some b → b = m x := by
  rw [replacePathIfNecessary_of_homePath (homePath_of_stringAt hs hhome)]
  dsimp only
  constructor
  · intro heq x b hx hb
    have hx' := congrFun heq x
    rw [restorePath_of_window (hwin x hx) hx, applyWrites_apply, hb] at hx'
    rw [show b = (some b).getD (m x) from rfl, ← hx']
    exact (backup_index hx).trans (getUser_of_readable (hwin x hx).readable)
  · intro h
    funext x
    by_cases hx : Window f x
    · rw [restorePath_of_window (hwin x hx) hx, applyWrites_apply]
      refine ((backup_index hx).trans (getUser_of_readable (hwin x hx).readable)).trans ?_
      cases hb : lastWrite ws x with
      | none => rfl
      | some b => exact (h x b hx hb).symm
    · have hout : ¬ (Writable p x ∧ Window f x) := fun hw => hx hw.2
      rw [restorePath_of_not_window hout, applyWrites_apply, applyWrites_apply,
        rewritten_of_not_window hout]

/-- In memory that is writable throughout, so is a window that does not wrap. -/
theorem writable_of_window {f x : Addr} (hlo : 8 ≤ f.toNat) (hhi : f.toNat ≤ 0xC0000000)
    (hx : Window f x) : Writable (fun _ => .writable) x := by
  have hx' : (x - (f - 8#32)).toNat < 8 := hx
  refine ⟨?_, rfl⟩
  unfold taskSize
  bv_omega

/-- A buffer away from the path is delivered. -/
theorem restore_keeps_distant_buffer :
    restorePath (fun _ => .writable)
        (applyWrites (replacePathIfNecessary (fun _ => .writable) (fun _ => 0)
          (textAt 0x1010#32 (bytes "/home/a")) ⟨1, 1, 1, fun _ => 0, 0⟩ 0x1010#32).2.1
          [(0x2000#32, 7)])
        (replacePathIfNecessary (fun _ => .writable) (fun _ => 0)
          (textAt 0x1010#32 (bytes "/home/a")) ⟨1, 1, 1, fun _ => 0, 0⟩ 0x1010#32).2.2 0x1010#32 =
      applyWrites (textAt 0x1010#32 (bytes "/home/a")) [(0x2000#32, 7)] := by
  refine (restore_after_writes_iff (s := bytes "/home/a") (by decide) (by decide)
    (fun x hx => writable_of_window (by decide) (by decide) hx) _ _ _).mpr ?_
  intro x b hx hb
  have hne : x ≠ 0x2000#32 := by
    rintro rfl
    revert hx
    decide
  simp [lastWrite, hne] at hb

/-- A one-byte buffer right in front of the path is lost. -/
theorem restore_loses_buffer :
    ¬ ∀ (p : ProtMap) (tmp : ℕ → UInt8) (m : Mem) (current : TaskStruct) (f : Addr)
        (s : List UInt8) (ws : List (Addr × UInt8)),
      StringAt p m f s → homedirPrefix <+: s → (∀ x, Window f x → Writable p x) →
      (∀ i ≤ s.length, Writable p (f + BitVec.ofNat 32 i)) →
      (∀ w ∈ ws, Writable p w.1 ∧ ∀ i ≤ s.length, w.1 ≠ f + BitVec.ofNat 32 i) →
      restorePath p (applyWrites (replacePathIfNecessary p tmp m current f).2.1 ws)
        (replacePathIfNecessary p tmp m current f).2.2 f = applyWrites m ws := by
  intro h
  have hx := congrFun (h (fun _ => .writable) (fun _ => 0) (textAt 0x1010#32 (bytes "/home/a"))
    ⟨1, 1, 1, fun _ => 0, 0⟩ 0x1010#32 (bytes "/home/a") [(0x100f#32, 7)] (by decide)
    (by decide) (fun x hx => writable_of_window (by decide) (by decide) hx) (by decide)
    (fun w hw => by
      rw [List.mem_singleton.mp hw]
      decide)) 0x100f#32
  revert hx
  decide

end HomeHack
end KernelStudy
