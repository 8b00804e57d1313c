import KernelStudy.Lib.Run
import KernelStudy.Lib.Text
import KernelStudy.Lib.UserSpace

/-!
# The character device

`chardev.c` has one message buffer, one cursor into it and one open count for
all its users.  Opening the device prints a fresh message into the buffer and
puts the cursor at its start; a read moves bytes from the cursor on to the
caller; a second open is refused while the first handle is open.

The system around the device is the VFS, which passes reads, writes and releases
on for handles whose open succeeded, and the module loader, which removes the
module in two steps: it marks a module without references as going, after which
`try_module_get` fails, and later runs `cleanup_module` and frees the code.
`fops` names no owner, so opens still reach `device_open` between the two.

## Main definitions

* `Device`, `deviceOpen`, `deviceRead`, `deviceWrite`, `deviceRelease` — the
  driver.
* `World`, `Event`, `step` — the driver, its handles and its module, with a log
  of the calls.
* `message k` — the text of the session with number `k`.
* `Step` — the step function as a relation, one constructor for each outcome.

## Main results

* `length_message_lt` — the message fits its buffer whatever the counter is.
* `readLoop_eq`, `deviceRead_eq` — one read stores the next bytes of the message.
* `step_cases` — everything a step can do.
-/

namespace KernelStudy
namespace Chardev

/-! ### The driver -/

/-- `SUCCESS`. -/
def success : ℤ := 0

/-- `EBUSY`. -/
def ebusy : ℤ := 16

/-- `EINVAL`. -/
def einval : ℤ := 22

/-- `BUF_LEN`. -/
def bufLen : ℕ := 80

/-- The reference count of the module, and whether its removal has begun. -/
structure ModuleRef where
  /-- The count. -/
  refcnt : ℤ
  /-- The module is going. -/
  going : Bool

/-- `try_module_get`: fails, and takes no reference, on a module that is going. -/
def tryModuleGet (r : ModuleRef) : Bool × ModuleRef :=
  if r.going then (false, r) else (true, { r with refcnt := r.refcnt + 1 })

/-- `module_put`. -/
def modulePut (r : ModuleRef) : ModuleRef := { r with refcnt := r.refcnt - 1 }

/-- The static variables of the driver, and the reference count of its module. -/
structure Device where
  /-- `Device_Open`. -/
  deviceOpen : ℤ
  /-- `counter`, a C `int`. -/
  counter : BitVec 32
  /-- The bytes from `msg` on. -/
  msg : ℕ → UInt8
  /-- `msg_Ptr`, as an offset into `msg`; null before the first open. -/
  msgPtr : Option ℕ
  /-- `THIS_MODULE`. -/
  thisModule : ModuleRef

/-- What `device_open` prints. -/
def message (counter : BitVec 32) : List UInt8 :=
  bytes "I already told you " ++ intText counter.toInt ++ bytes " times Hello world!\n"

/-- `device_open`.  The result of `try_module_get` is not looked at. -/
def deviceOpen (d : Device) : ℤ × Device :=
  if d.deviceOpen ≠ 0 then (-ebusy, d)
  else
    (success,
      { deviceOpen := d.deviceOpen + 1
        counter := d.counter + 1
        msg := sprintf d.msg (message d.counter)
        msgPtr := some 0
        thisModule := (tryModuleGet d.thisModule).2 })

/-- `device_release`. -/
def deviceRelease (d : Device) : ℤ × Device :=
  (0, { d with deviceOpen := d.deviceOpen - 1, thisModule := modulePut d.thisModule })

/-- The loop of `device_read` with `length` bytes to go: the bytes read, the
cursor and the memory afterwards. -/
def readLoop (p : ProtMap) (msg : ℕ → UInt8) : ℕ → Mem → Addr → ℕ → ℕ × ℕ × Mem
  | 0, m, _, ptr => (0, ptr, m)
  | length + 1, m, buffer, ptr =>
      if msg ptr = 0 then (0, ptr, m)
      else
        let r := readLoop p msg length (putUser p m buffer (msg ptr)) (buffer + 1#32) (ptr + 1)
        (r.1 + 1, r.2)

/-- `device_read`: its result, the caller's memory and the device.  Reading
through a null cursor faults. -/
def deviceRead (p : ProtMap) (m : Mem) (d : Device) (buffer : Addr) (length : ℕ) :
    Option (ℤ × Mem × Device) :=
  match d.msgPtr with
  | none => none
  | some ptr =>
      if d.msg ptr = 0 then some (0, m, d)
      else
        let r := readLoop p d.msg length m buffer ptr
        some (r.1, r.2.2, { d with msgPtr := some r.2.1 })

/-- `device_write`. -/
def deviceWrite : ℤ := -einval

/-! ### Handles and the module loader -/

/-- A call that has returned. -/
inductive Entry where
  | opened (h : ℕ) (ret : ℤ)
  | read (h : ℕ) (length : ℕ) (ret : ℤ) (data : List UInt8)
  | wrote (h : ℕ) (ret : ℤ)
  | released (h : ℕ) (ret : ℤ)

/-- The driver and what surrounds it. -/
structure World where
  /-- The driver. -/
  dev : Device
  /-- The handles whose open succeeded and that are not released. -/
  handles : List ℕ
  /-- `cleanup_module` has run and the code is freed. -/
  unloaded : Bool
  /-- The calls so far. -/
  log : List Entry

/-- A call by a client, or a step of the removal. -/
inductive Event where
  | openFile (h : ℕ)
  /-- A read into a buffer of the caller's memory. -/
  | readFile (h : ℕ) (p : ProtMap) (m : Mem) (buffer : Addr) (length : ℕ)
  | writeFile (h : ℕ)
  | releaseFile (h : ℕ)
  /-- The module is marked as going. -/
  | markGoing
  /-- `cleanup_module` runs and the code is freed. -/
  | cleanup

/-- The freshly loaded module. -/
def init : World where
  dev := ⟨0, 0#32, fun _ => 0, none, ⟨0, false⟩⟩
  handles := []
  unloaded := false
  log := []

/-- The first `n` bytes of a buffer. -/
def bufferBytes (m : Mem) (buffer : Addr) (n : ℕ) : List UInt8 :=
  (List.range n).map fun i => m (buffer + BitVec.ofNat 32 i)

/-- One call or removal step.  Reads, writes and releases come on open handles
only, and reads with a writable buffer. -/
def step (w : World) (e : Event) : Option World :=
  if w.unloaded then none
  else
    match e with
    | .openFile h =>
        if h ∈ w.handles then none
        else
          let r := deviceOpen w.dev
          some { w with
            dev := r.2
            handles := if r.1 = success then h :: w.handles else w.handles
            log := w.log ++ [.opened h r.1] }
    | .readFile h p m buffer length =>
        if h ∈ w.handles ∧ ∀ i < length, Writable p (buffer + BitVec.ofNat 32 i) then
          match deviceRead p m w.dev buffer length with
          | none => none
          | some (ret, m', d) =>
              some { w with
                dev := d
                log := w.log ++ [.read h length ret (bufferBytes m' buffer ret.toNat)] }
        else none
    | .writeFile h =>
        if h ∈ w.handles then some { w with log := w.log ++ [.wrote h deviceWrite] } else none
    | .releaseFile h =>
        if h ∈ w.handles then
          let r := deviceRelease w.dev
          some { w with
            dev := r.2
            handles := w.handles.erase h
            log := w.log ++ [.released h r.1] }
        else none
    | .markGoing =>
        if w.dev.thisModule.refcnt = 0 ∧ w.dev.thisModule.going = false then
          some { w with dev := { w.dev with
            thisModule := { w.dev.thisModule with going := true } } }
        else none
    | .cleanup =>
        if w.dev.thisModule.going then some { w with unloaded := true } else none

/-! ### The message -/

theorem ne_zero_of_mem_message {k : BitVec 32} {c : UInt8} (hc : c ∈ message k) : c ≠ 0 := by
  rw [message, List.mem_append, List.mem_append] at hc
  rcases hc with (hc | hc) | hc
  · exact ne_of_mem_of_not_mem hc (by decide)
  · exact ne_zero_of_mem_intText hc
  · exact ne_of_mem_of_not_mem hc (by decide)

/-- **The message fits its buffer, whatever the counter is.** -/
theorem length_message_lt (k : BitVec 32) : (message k).length < bufLen := by
  have hnum : (intText k.toInt).length ≤ 11 := by
    refine length_intText_le ?_ ?_
    · have := BitVec.le_toInt k
      omega
    · have := BitVec.toInt_lt (x := k)
      omega
  have hfront : (bytes "I already told you ").length = 19 := by decide
  have hback : (bytes " times Hello world!\n").length = 20 := by decide
  rw [message, List.length_append, List.length_append, hfront, hback]
  unfold bufLen
  omega

/-- The buffer holds a text and its terminator. -/
structure Holds (msg : ℕ → UInt8) (text : List UInt8) : Prop where
  get : ∀ i (h : i < text.length), msg i = text[i]
  nul : msg text.length = 0

theorem holds_sprintf (msg : ℕ → UInt8) (text : List UInt8) : Holds (sprintf msg text) text :=
  ⟨fun _ h => sprintf_of_lt msg h, sprintf_length msg text⟩

/-! ### Reading -/

variable {p : ProtMap} {msg : ℕ → UInt8} {text : List UInt8}

/-- **One read stores the next bytes of the message**, up to the length asked for
or the end of the message. -/
theorem readLoop_eq (hmsg : Holds msg text) (hne : ∀ c ∈ text, c ≠ 0) :
    ∀ (n : ℕ) (m : Mem) (buffer : Addr) (ptr : ℕ), ptr ≤ text.length →
      readLoop p msg n m buffer ptr =
        (min n (text.length - ptr), ptr + min n (text.length - ptr),
          putBytes p m buffer ((text.drop ptr).take n)) := by
  intro n
  induction n with
  | zero => intro m buffer ptr _; simp [readLoop, putBytes]
  | succ n ih =>
    intro m buffer ptr hptr
    rw [readLoop]
    rcases Nat.eq_or_lt_of_le hptr with rfl | hlt
    · rw [if_pos hmsg.nul]
      simp [putBytes]
    · -- a byte of the message is stored, and the loop goes on behind it
      have hget := hmsg.get ptr hlt
      have hnz : msg ptr ≠ 0 := by
        rw [hget]
        exact hne _ (List.getElem_mem hlt)
      rw [if_neg hnz, ih _ _ _ (by omega), List.drop_eq_getElem_cons hlt, List.take_succ_cons,
        putBytes, hget]
      refine Prod.ext ?_ (Prod.ext ?_ rfl)
      · simp only
        omega
      · simp only
        omega

/-- `device_read` with the cursor inside the message, for any buffer. -/
theorem deviceRead_eq {d : Device} {ptr : ℕ} (hmsg : Holds d.msg text)
    (hne : ∀ c ∈ text, c ≠ 0) (hptr : d.msgPtr = some ptr) (hle : ptr ≤ text.length)
    (m : Mem) (buffer : Addr) (n : ℕ) :
    deviceRead p m d buffer n =
      some ((((text.drop ptr).take n).length : ℤ), putBytes p m buffer ((text.drop ptr).take n),
        { d with msgPtr := some (ptr + ((text.drop ptr).take n).length) }) := by
  have hlen : ((text.drop ptr).take n).length = min n (text.length - ptr) := by simp
  unfold deviceRead
  rw [hptr]
  dsimp only
  rcases Nat.eq_or_lt_of_le hle with rfl | hlt
  · rw [if_pos hmsg.nul]
    -- nothing is left, and the cursor stays at the terminator
    simp only [List.drop_length, List.take_nil, List.length_nil, putBytes, Nat.add_zero, ← hptr]
    rfl
  · have hnz : d.msg ptr ≠ 0 := by
      rw [hmsg.get ptr hlt]
      exact hne _ (List.getElem_mem hlt)
    rw [if_neg hnz, readLoop_eq hmsg hne n m buffer ptr hle, hlen]

/-! ### What a step can do -/

/-- The steps of the world, one constructor for each outcome of an event. -/
inductive Step (w : World) : Event → World → Prop
  | refused (h : ℕ) (hbusy : w.dev.deviceOpen ≠ 0) :
      Step w (.openFile h) { w with log := w.log ++ [.opened h (-ebusy)] }
  | opened (h : ℕ) (hfree : w.dev.deviceOpen = 0) :
      Step w (.openFile h)
        { w with
          dev := (deviceOpen w.dev).2
          handles := h :: w.handles
          log := w.log ++ [.opened h success] }
  | read (h : ℕ) (p : ProtMap) (m : Mem) (buffer : Addr) (length : ℕ) (ret : ℤ) (m' : Mem)
      (d : Device) (hh : h ∈ w.handles)
      (hw : ∀ i < length, Writable p (buffer + BitVec.ofNat 32 i))
      (hret : deviceRead p m w.dev buffer length = some (ret, m', d)) :
      Step w (.readFile h p m buffer length)
        { w with
          dev := d
          log := w.log ++ [.read h length ret (bufferBytes m' buffer ret.toNat)] }
  | wrote (h : ℕ) :
      Step w (.writeFile h) { w with log := w.log ++ [.wrote h deviceWrite] }
  | released (h : ℕ) (hh : h ∈ w.handles) :
      Step w (.releaseFile h)
        { w with
          dev := (deviceRelease w.dev).2
          handles := w.handles.erase h
          log := w.log ++ [.released h (deviceRelease w.dev).1] }
  | marked (hzero : w.dev.thisModule.refcnt = 0) :
      Step w .markGoing
        { w with dev := { w.dev with thisModule := { w.dev.thisModule with going := true } } }
  | cleaned (hgoing : w.dev.thisModule.going = true) :
      Step w .cleanup { w with unloaded := true }

/-- **Everything a step can do.** -/
theorem step_cases {w w' : World} {e : Event} (hs : step w e = some w') : Step w e w' := by
  have hloaded : w.unloaded ≠ true := by
    intro hu
    simp [step, hu] at hs
  unfold step at hs
  rw [if_neg hloaded] at hs
  cases e with
  | openFile h =>
    dsimp only at hs
    split at hs
    · cases hs
    · by_cases hbusy : w.dev.deviceOpen ≠ 0
      · -- the handle is not given out, and the device is left alone
        have hopen : deviceOpen w.dev = (-ebusy, w.dev) := by rw [deviceOpen, if_pos hbusy]
        have hne : (-ebusy) ≠ success := by decide
        rw [hopen] at hs
        simp only [if_neg hne, Option.some.injEq] at hs
        exact hs ▸ .refused h hbusy
      · have hopen : (deviceOpen w.dev).1 = success := by rw [deviceOpen, if_neg hbusy]
        rw [hopen, if_pos rfl, Option.some.injEq] at hs
        exact hs ▸ .opened h (not_not.mp hbusy)
  | readFile h p m buffer length =>
    dsimp only at hs
    split at hs
    · rename_i hok
      split at hs
      · -- a read that faults is no step
        cases hs
      · rename_i ret m' d hret
        rw [Option.some.injEq] at hs
        exact hs ▸ .read h p m buffer length ret m' d hok.1 hok.2 hret
    · cases hs
  | writeFile h =>
    dsimp only at hs
    split at hs
    · rw [Option.some.injEq] at hs
      exact hs ▸ .wrote h
    · cases hs
  | releaseFile h =>
    dsimp only at hs
    split at hs
    · rename_i hh
      rw [Option.some.injEq] at hs
      exact hs ▸ .released h hh
    · cases hs
  | markGoing =>
    dsimp only at hs
    split at hs
    · rename_i hzero
      rw [Option.some.injEq] at hs
      exact hs ▸ .marked hzero.1
    · cases hs
  | cleanup =>
    dsimp only at hs
    split at hs
    · rename_i hgoing
      rw [Option.some.injEq] at hs
      exact hs ▸ .cleaned hgoing
    · cases hs

end Chardev
end KernelStudy
