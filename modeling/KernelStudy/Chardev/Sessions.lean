import KernelStudy.Chardev.Device

/-!
# Sessions of the character device

A session is what happens between a successful open and the release of its
handle.  The buffer and the cursor are shared by all handles, but only one of
them is open at a time, so within a session they belong to its handle.

## Main definitions

* `opens` — the successful opens of a log.
* `delivered`, `requested` — what a handle got and asked for, in a log.
* `Exclusive` — the invariant of all histories.
* `InSession h text base` — the invariant of a session.

## Main results

* `exclusive_step`, `inSession_step` — the step lemmas.
* `device_sessions` — **the sessions of any history of calls.**
-/

namespace KernelStudy
namespace Chardev

/-! ### What a log says -/

/-- The number of successful opens. -/
def opens : List Entry → ℕ
  | [] => 0
  | .opened _ ret :: log => (if ret = success then 1 else 0) + opens log
  | _ :: log => opens log

/-- The bytes that the reads of `h` delivered. -/
def delivered (h : ℕ) : List Entry → List UInt8
  | [] => []
  | .read h' _ _ data :: log => (if h' = h then data else []) ++ delivered h log
  | _ :: log => delivered h log

/-- The sum of the lengths that the reads of `h` asked for. -/
def requested (h : ℕ) : List Entry → ℕ
  | [] => 0
  | .read h' length _ _ :: log => (if h' = h then length else 0) + requested h log
  | _ :: log => requested h log

theorem opens_append : ∀ log log' : List Entry, opens (log ++ log') = opens log + opens log' := by
  intro log log'
  induction log with
  | nil => simp [opens]
  | cons x log ih => cases x <;> simp [opens, ih, Nat.add_assoc]

theorem delivered_append (h : ℕ) : ∀ log log' : List Entry,
    delivered h (log ++ log') = delivered h log ++ delivered h log' := by
  intro log log'
  induction log with
  | nil => simp [delivered]
  | cons x log ih => cases x <;> simp [delivered, ih]

theorem requested_append (h : ℕ) : ∀ log log' : List Entry,
    requested h (log ++ log') = requested h log + requested h log' := by
  intro log log'
  induction log with
  | nil => simp [requested]
  | cons x log ih => cases x <;> simp [requested, ih, Nat.add_assoc]

/-! ### All histories -/

/-- What holds of the device after any history: the open count counts the
handles, there is one at most, the counter counts the successful opens, and an
open handle has a cursor. -/
structure Exclusive (w : World) : Prop where
  count : w.dev.deviceOpen = w.handles.length
  single : w.handles.length ≤ 1
  counter : w.dev.counter = BitVec.ofNat 32 (opens w.log)
  cursor : w.handles ≠ [] → w.dev.msgPtr.isSome

theorem Exclusive.handles_eq_nil {w : World} (hI : Exclusive w) (hfree : w.dev.deviceOpen = 0) :
    w.handles = [] := by
  have := hI.count
  exact List.eq_nil_of_length_eq_zero (by omega)

theorem exclusive_init : Exclusive init where
  count := rfl
  single := Nat.zero_le 1
  counter := rfl
  cursor := fun h => absurd rfl h

/-- A read moves the cursor and nothing else of the device. -/
theorem deviceRead_frame {p : ProtMap} {m m' : Mem} {d d' : Device} {buffer : Addr} {n : ℕ}
    {ret : ℤ} (hret : deviceRead p m d buffer n = some (ret, m', d')) :
    d' = { d with msgPtr := d'.msgPtr } ∧ d'.msgPtr.isSome := by
  unfold deviceRead at hret
  split at hret
  · cases hret
  · rename_i ptr hptr
    split at hret
    · cases hret
      exact ⟨rfl, by rw [hptr]; rfl⟩
    · cases hret
      exact ⟨rfl, rfl⟩

/-- **Every step keeps the handle exclusive.** -/
theorem exclusive_step (w : World) (e : Event) (w' : World) (hI : Exclusive w)
    (hs : step w e = some w') : Exclusive w' := by
  cases step_cases hs with
  | refused h hbusy =>
    refine ⟨hI.count, hI.single, ?_, hI.cursor⟩
    simp [opens_append, opens, ebusy, success, hI.counter]
  | opened h hfree =>
    -- the count is zero, so the new handle is the only one
    have hnil := hI.handles_eq_nil hfree
    refine ⟨?_, ?_, ?_, ?_⟩
    · simp [deviceOpen, hfree, hnil]
    · simp [hnil]
    · simp [deviceOpen, hfree, opens_append, opens, hI.counter, BitVec.ofNat_add]
    · intro _
      simp [deviceOpen, hfree]
  | read h p m buffer length ret m' d hh hw hret =>
    obtain ⟨hframe, hsome⟩ := deviceRead_frame hret
    rw [hframe]
    refine ⟨hI.count, hI.single, ?_, fun _ => hsome⟩
    simp [opens_append, opens, hI.counter]
  | wrote h =>
    refine ⟨hI.count, hI.single, ?_, hI.cursor⟩
    simp [opens_append, opens, hI.counter]
  | released h hh =>
    have hlen := List.length_erase_of_mem hh
    have hpos := List.length_pos_of_mem hh
    refine ⟨?_, ?_, ?_, ?_⟩
    · simp only [deviceRelease, hI.count, hlen]
      omega
    · simp only [hlen]
      have := hI.single
      omega
    · simp [deviceRelease, opens_append, opens, hI.counter]
    · intro _
      exact hI.cursor (List.ne_nil_of_mem hh)
  | marked hzero => exact ⟨hI.count, hI.single, hI.counter, hI.cursor⟩
  | cleaned hgoing => exact ⟨hI.count, hI.single, hI.counter, hI.cursor⟩

theorem exclusive_of_run {es : List Event} {w : World} (hr : run step init es = some w) :
    Exclusive w :=
  run_invariant exclusive_step es init w exclusive_init hr

/-! ### One session -/

/-- What the handle `h` has been served in the part `seg` of the log, and what
the device has for it next. -/
structure Served (h : ℕ) (text : List UInt8) (seg : List Entry) (d : Device) : Prop where
  /-- The bytes delivered are a prefix of the text. -/
  delivered_eq : delivered h seg = text.take (min (requested h seg) text.length)
  /-- Every read returned the number of bytes it delivered. -/
  returned : ∀ n ret data, .read h n ret data ∈ seg → ret = data.length
  /-- The next read stores the bytes that follow, and returns their number. -/
  next : ∀ p m buffer n, ∃ d',
    deviceRead p m d buffer n =
      some ((((text.drop (requested h seg)).take n).length : ℤ),
        putBytes p m buffer ((text.drop (requested h seg)).take n), d')
  /-- After the end a read returns zero and changes nothing. -/
  ended : text.length ≤ requested h seg → ∀ p m buffer n, deviceRead p m d buffer n = some (0, m, d)

/-- The invariant of the session of `h` with number `k`, whose log starts after
`base`. -/
structure InSession (h : ℕ) (k : BitVec 32) (base : List Entry) (w : World) : Prop where
  handles : w.handles = [h]
  busy : w.dev.deviceOpen ≠ 0
  holds : Holds w.dev.msg (message k)
  progress : ∃ seg, w.log = base ++ seg ∧
    w.dev.msgPtr = some (min (requested h seg) (message k).length) ∧
    delivered h seg = (message k).take (min (requested h seg) (message k).length) ∧
    ∀ n ret data, .read h n ret data ∈ seg → ret = data.length

variable {h : ℕ} {k : BitVec 32} {base : List Entry} {w w' : World}

/-- An entry that is not a read leaves the progress of a session alone. -/
theorem InSession.log_append {x : Entry} (hS : InSession h k base w)
    (hx : ∀ h' n ret data, x ≠ .read h' n ret data) :
    InSession h k base { w with log := w.log ++ [x] } := by
  obtain ⟨seg, hlog, hptr, hdel, hret⟩ := hS.progress
  have hreq : requested h (seg ++ [x]) = requested h seg := by
    rw [requested_append]
    cases x with
    | read h' n ret data => exact absurd rfl (hx h' n ret data)
    | opened _ _ | wrote _ _ | released _ _ => rfl
  have hdel' : delivered h (seg ++ [x]) = delivered h seg := by
    rw [delivered_append]
    cases x with
    | read h' n ret data => exact absurd rfl (hx h' n ret data)
    | opened _ _ | wrote _ _ | released _ _ => exact List.append_nil _
  refine ⟨hS.handles, hS.busy, hS.holds, seg ++ [x], ?_, ?_, ?_, ?_⟩
  · simp [hlog]
  · rw [hreq]
    exact hptr
  · rw [hreq, hdel']
    exact hdel
  · intro n ret data hmem
    rcases List.mem_append.mp hmem with hmem | hmem
    · exact hret n ret data hmem
    · exact absurd (List.mem_singleton.mp hmem).symm (hx h n ret data)

/-- The bytes that a read finds in its buffer are those it stored. -/
theorem bufferBytes_putBytes {p : ProtMap} {m : Mem} {buffer : Addr} {data : List UInt8}
    (hlen : data.length ≤ bufLen)
    (hw : ∀ i < data.length, Writable p (buffer + BitVec.ofNat 32 i)) :
    bufferBytes (putBytes p m buffer data) buffer data.length = data := by
  refine (map_putBytes_eq_iff p m buffer ?_).mpr fun i hi => Or.inl (hw i hi)
  unfold bufLen at hlen
  omega

/-- **Every step but the release keeps a session going.** -/
theorem inSession_step (w : World) (e : Event) (w' : World) (hS : InSession h k base w)
    (he : e ≠ .releaseFile h) (hs : step w e = some w') : InSession h k base w' := by
  cases step_cases hs with
  | refused h' hbusy => exact hS.log_append (by simp)
  | opened h' hfree => exact absurd hfree hS.busy
  | read h' p m buffer n ret m' d hh hw hret =>
    -- no other handle is open, so the read is one of this session
    rw [hS.handles, List.mem_singleton] at hh
    subst hh
    obtain ⟨seg, hlog, hptr, hdel, hprev⟩ := hS.progress
    have hread := deviceRead_eq (p := p) hS.holds (fun _ => ne_zero_of_mem_message) hptr
      (Nat.min_le_right _ _) m buffer n
    generalize hdata : ((message k).drop (min (requested h' seg) (message k).length)).take n = data
      at hread
    have hlen : data.length = min n ((message k).length - min (requested h' seg)
        (message k).length) := by
      rw [← hdata]
      simp
    rw [hread, Option.some.injEq, Prod.mk.injEq, Prod.mk.injEq] at hret
    obtain ⟨rfl, rfl, rfl⟩ := hret
    have hbytes :
        bufferBytes (putBytes p m buffer data) buffer ((data.length : ℤ).toNat) = data := by
      rw [Int.toNat_natCast]
      have := length_message_lt k
      exact bufferBytes_putBytes (by omega) fun i hi => hw i (by omega)
    rw [hbytes]
    refine ⟨hS.handles, hS.busy, hS.holds, seg ++ [.read h' n data.length data], ?_, ?_, ?_, ?_⟩
    · simp [hlog]
    · simp only [requested_append, requested, if_true, Nat.add_zero, Option.some.injEq]
      omega
    · simp only [delivered_append, delivered, requested_append, requested, if_true, Nat.add_zero,
        List.append_nil]
      -- what was delivered before and the bytes after it are a longer part of the message
      rw [hdel, ← hdata, ← List.take_add, List.take_eq_take_iff]
      omega
    · intro n' ret' data' hmem
      rcases List.mem_append.mp hmem with hmem | hmem
      · exact hprev n' ret' data' hmem
      · obtain ⟨-, rfl, rfl⟩ : n' = n ∧ ret' = data.length ∧ data' = data := by
          simpa using hmem
        rfl
  | wrote h' => exact hS.log_append (by simp)
  | released h' hh =>
    rw [hS.handles, List.mem_singleton] at hh
    exact absurd (by rw [hh]) he
  | marked hzero => exact ⟨hS.handles, hS.busy, hS.holds, hS.progress⟩
  | cleaned hgoing => exact ⟨hS.handles, hS.busy, hS.holds, hS.progress⟩

/-- A successful open starts a session. -/
theorem inSession_open (hI : Exclusive w) (hs : step w (.openFile h) = some w')
    (hh : h ∈ w'.handles) :
    InSession h (BitVec.ofNat 32 (opens w.log)) w'.log w' := by
  cases step_cases hs with
  | refused _ hbusy =>
    -- the handle would have been open before
    unfold step at hs
    simp [show h ∈ w.handles from hh] at hs
  | opened _ hfree =>
    have hnil := hI.handles_eq_nil hfree
    have hopen : (deviceOpen w.dev).2.msg = sprintf w.dev.msg (message w.dev.counter) := by
      simp [deviceOpen, hfree]
    refine ⟨by simp [hnil], by simp [deviceOpen, hfree], ?_, [], by simp, ?_, ?_, by simp⟩
    · rw [← hI.counter]
      exact hopen ▸ holds_sprintf _ _
    · simp [deviceOpen, hfree, requested]
    · simp [delivered, requested]

theorem InSession.served (hS : InSession h k base w) :
    ∃ seg, w.log = base ++ seg ∧ Served h (message k) seg w.dev := by
  obtain ⟨seg, hlog, hptr, hdel, hret⟩ := hS.progress
  have hread : ∀ p m buffer n, deviceRead p m w.dev buffer n = _ := fun p m buffer n =>
    deviceRead_eq (p := p) hS.holds (fun _ => ne_zero_of_mem_message) hptr
      (Nat.min_le_right _ _) m buffer n
  have hdrop : (message k).drop (min (requested h seg) (message k).length) =
      (message k).drop (requested h seg) := by
    rcases Nat.le_total (requested h seg) (message k).length with hle | hle
    · rw [Nat.min_eq_left hle]
    · rw [Nat.min_eq_right hle, List.drop_length, List.drop_eq_nil_of_le hle]
  refine ⟨seg, hlog, hdel, hret, ?_, ?_⟩
  · intro p m buffer n
    have := hread p m buffer n
    rw [hdrop] at this
    exact ⟨_, this⟩
  · intro hle p m buffer n
    have := hread p m buffer n
    rw [hdrop, List.drop_eq_nil_of_le hle, List.take_nil] at this
    rw [this]
    simp [putBytes, ← hptr]

/-- **The sessions of any history of calls.**  At most one handle is open, and
the open count says whether one is; while one is, an open is refused and changes
nothing, and no read faults; the message fits its buffer.  In the session of
any successful open, the reads deliver the message with the number of opens
before it, from its start on and up to its end. -/
theorem device_sessions {es : List Event} (hr : run step init es = some w) :
    (w.handles.length ≤ 1 ∧ w.dev.deviceOpen = w.handles.length) ∧
      (w.handles ≠ [] → deviceOpen w.dev = (-ebusy, w.dev)) ∧
      (w.handles ≠ [] → ∀ p m buffer n, (deviceRead p m w.dev buffer n).isSome) ∧
      (∀ counter, (message counter).length < bufLen) ∧
      ∀ h w₁ es' w₂, step w (.openFile h) = some w₁ → h ∈ w₁.handles → .releaseFile h ∉ es' →
        run step w₁ es' = some w₂ →
        ∃ seg, w₂.log = w₁.log ++ seg ∧
          Served h (message (BitVec.ofNat 32 (opens w.log))) seg w₂.dev := by
  have hI := exclusive_of_run hr
  have hpos : w.handles ≠ [] → 0 < w.handles.length := List.length_pos_of_ne_nil
  refine ⟨⟨hI.single, hI.count⟩, ?_, ?_, length_message_lt, ?_⟩
  · intro hne
    have := hI.count
    have := hpos hne
    rw [deviceOpen, if_pos (by omega)]
  · intro hne p m buffer n
    obtain ⟨ptr, hptr⟩ := Option.isSome_iff_exists.mp (hI.cursor hne)
    unfold deviceRead
    rw [hptr]
    dsimp only
    split <;> rfl
  · intro h w₁ es' w₂ hs hh hnot hr'
    have hS := inSession_open hI hs hh
    refine InSession.served (run_invariant_throughout (C := fun _ e => e ≠ .releaseFile h)
      inSession_step es' w₁ w₂ hS (throughout_of_forall es' w₁ ?_) hr')
    intro e he heq
    exact hnot (heq ▸ he)

/-- A read of `n` bytes into a writable buffer. -/
def readEvent (h n : ℕ) : Event := .readFile h (fun _ => .writable) (fun _ => 0) 0x1000#32 n

/-- The second session delivers the second message, whole. -/
theorem second_session_delivers_message : ∃ w w₁ w₂ seg,
    run step init [.openFile 0, .openFile 1, .releaseFile 0] = some w ∧
      step w (.openFile 2) = some w₁ ∧
      run step w₁ [readEvent 2 7, readEvent 2 40] = some w₂ ∧
      w₂.log = w₁.log ++ seg ∧ delivered 2 seg = message 1#32 := by
  have hpre : (run step init [.openFile 0, .openFile 1, .releaseFile 0]).map
      (fun w => opens w.log) = some 1 := by decide
  obtain ⟨w, hr, hopens⟩ := Option.map_eq_some_iff.mp hpre
  have hopen : (run step init ([.openFile 0, .openFile 1, .releaseFile 0] ++ [.openFile 2])).map
      (fun w => (w.handles, requested 2 w.log)) = some ([2], 0) := by decide
  obtain ⟨w₁, hr₁, hw₁⟩ := Option.map_eq_some_iff.mp hopen
  obtain ⟨w', hw', hr₁'⟩ := run_append.mp hr₁
  obtain rfl : w = w' := Option.some.inj (hr.symm.trans hw')
  have hs : step w (.openFile 2) = some w₁ := by
    obtain ⟨w'', hs, hnil⟩ := run_cons_eq_some.mp hr₁'
    rwa [Option.some.inj hnil] at hs
  have hreads : (run step init ([.openFile 0, .openFile 1, .releaseFile 0] ++ [.openFile 2] ++
      [readEvent 2 7, readEvent 2 40])).map (fun w => requested 2 w.log) = some 47 := by decide
  obtain ⟨w₂, hr₂, hreq⟩ := Option.map_eq_some_iff.mp hreads
  obtain ⟨w', hw', hr₂'⟩ := run_append.mp hr₂
  obtain rfl : w₁ = w' := Option.some.inj (hr₁.symm.trans hw')
  have hmem : 2 ∈ w₁.handles := by simp [(Prod.mk.inj hw₁).1]
  obtain ⟨seg, hlog, hserved⟩ := (device_sessions hr).2.2.2.2 2 w₁ _ w₂ hs hmem
    (by simp [readEvent]) hr₂'
  have hseg : requested 2 seg = 47 := by
    rw [hlog, requested_append, (Prod.mk.inj hw₁).2, Nat.zero_add] at hreq
    exact hreq
  refine ⟨w, w₁, w₂, seg, hr, hs, hr₂', hlog, ?_⟩
  rw [hserved.delivered_eq, hseg, hopens]
  decide

end Chardev
end KernelStudy
