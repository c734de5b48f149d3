import TayHuang.MailAdmission

/-! The semaphores that exist in a kernel are the ones created so far: `cur_id` is the
id of the next one, and none is ever freed. -/

namespace TayHuang.Kernel

open Function (update)
open Runs

variable {k k' : Kernel}

def SignalsCreated (k : Kernel) : Prop := ∀ id, k.signal id ≠ none ↔ id < k.curId

def SameSignals (k k' : Kernel) : Prop := k'.signal = k.signal ∧ k'.curId = k.curId

theorem SignalsCreated.same (h : SignalsCreated k) (hs : SameSignals k k') : SignalsCreated k' := by
  intro id
  rw [hs.1, hs.2]
  exact h id

theorem SignalsCreated.set {id : Nat} {s : Signal Nat} (h : SignalsCreated k) (hid : k.signal id ≠ none) :
    SignalsCreated (k.setSignal id s) := by
  intro j
  have hj := h j
  by_cases hji : j = id
  · subst hji
    simpa [setSignal] using hj.mp hid
  · simpa [setSignal, hji] using hj

theorem SignalsCreated.create {maxSignals value : Int} {soft : Bool} (h : SignalsCreated k) :
    SignalsCreated (k.__createSignal maxSignals value soft).1 := by
  intro j
  have hj := h j
  by_cases hji : j = k.curId
  · subst hji
    simp [__createSignal, setSignal]
  · simp only [__createSignal, setSignal, Function.update_of_ne hji]
    rw [hj]
    omega

theorem sameSignals_enqueueThread (k : Kernel) (t : Nat) : SameSignals k (k.enqueueThread t) := by
  obtain ⟨freeNext, level0, he⟩ := enqueueThread_eq k t
  rw [he]
  exact ⟨rfl, rfl⟩

theorem sameSignals_deliver {p src size : Nat} {pack : Msgpack} {paSrc : Nat → Nat} {wakes : Bool}
    (h : k.deliver p pack paSrc src size wakes = some k') : SameSignals k k' := by
  obtain ⟨state, freeNext, level0, rfl⟩ := deliver_frame h
  exact ⟨rfl, rfl⟩

theorem sameSignals_doSwitch (k : Kernel) (regs : Frame) : SameSignals k (k.doSwitch regs).1 := by
  obtain ⟨count, he⟩ := doSwitch_eq k regs
  obtain ⟨freeNext, level0, level1, hg⟩ := getNextRunThread_frame (k.downThread regs)
  rw [he, hg]
  change SameSignals k (k.downThread regs)
  rcases downThread_cases k regs with ⟨-, hd⟩ | ⟨-, hd⟩ | ⟨-, hd⟩
  · rw [hd]
    exact sameSignals_enqueueThread ((k.saved regs).setState k.current .ready) k.current
  · obtain ⟨next, last, hr⟩ := removeThread_eq (k.saved regs) k.current
    rw [hd, hr]
    exact ⟨rfl, rfl⟩
  · rw [hd]
    exact ⟨rfl, rfl⟩

theorem sameSignals_afterSyscall (k : Kernel) (regs : Frame) :
    SameSignals k (k.afterSyscall regs).1 := by
  unfold afterSyscall
  split
  · exact sameSignals_doSwitch k regs
  · exact ⟨rfl, rfl⟩

theorem sameSignals_clock (k : Kernel) (regs : Frame) : SameSignals k (k.clockIntHandler regs).1 := by
  simp only [clockIntHandler]
  split
  · split
    · exact sameSignals_afterSyscall k regs
    · exact sameSignals_afterSyscall k regs
  · exact ⟨rfl, rfl⟩

theorem SignalsCreated.syscall {fuel : Nat} {call : Syscall} {r : UInt64} (h : SignalsCreated k)
    (hs : k.syscall fuel call = some (k', r)) : SignalsCreated k' := by
  cases syscall_effect hs with
  | idle => exact h
  | sent hp hroom hallow hd => exact h.same (sameSignals_deliver hd)
  | received hk =>
    rcases recvMsg_frame hk with rfl | ⟨mem, readPtr, size, rfl⟩
    · exact h
    · exact h.same ⟨rfl, rfl⟩
  | creates => exact h.create
  | @ups id _ hk =>
    obtain ⟨s, s', hid, hup⟩ := upSignal_effect hk
    have hset : SignalsCreated (k.setSignal id s') := h.set (by simp [hid])
    rcases hup with ⟨-, rfl⟩ | ⟨t, -, rfl⟩
    · exact hset
    · have hready : SignalsCreated ((k.setSignal id s').setState t .ready) := hset.same ⟨rfl, rfl⟩
      exact hready.same (sameSignals_enqueueThread _ t)
  | @downs id _ hk =>
    obtain ⟨s, s', hid, hdown⟩ := downSignal_effect hk
    have hset : SignalsCreated (k.setSignal id s') := h.set (by simp [hid])
    rcases hdown with ⟨-, rfl⟩ | ⟨-, rfl⟩
    · exact hset
    · exact hset.same ⟨rfl, rfl⟩
  | @spawns t entry _ _ hk =>
    obtain ⟨parent, -, rfl⟩ := createThread_eq hk
    exact h.same (sameSignals_enqueueThread
      ((k.spawnThread t entry k.currentTask).linkThread parent t) t)
  | waits | locks | allows | mails | registers | exits => exact h.same ⟨rfl, rfl⟩

theorem SignalsCreated.step {regs : Frame} {e : KernelEvent} (h : SignalsCreated k) (hs : Step k (regs, e) k') :
    SignalsCreated k' := by
  cases e with
  | syscall fuel call =>
    obtain ⟨k1, r, hk, rfl⟩ := hs.syscall
    exact (h.syscall hk).same (sameSignals_afterSyscall k1 _)
  | clock =>
    obtain rfl := hs.clock
    exact h.same (sameSignals_clock k regs)
  | switch =>
    obtain rfl := hs.switch
    exact h.same (sameSignals_doSwitch k regs)
  | irq irq reserved src =>
    rcases irq_cases hs.irq with rfl | ⟨n, rfl | ⟨p, pack, -, -, hd⟩⟩
    · exact h
    · exact h.same ⟨rfl, rfl⟩
    · have hid : SignalsCreated (k.withMsgid n) := h.same ⟨rfl, rfl⟩
      exact hid.same (sameSignals_deliver hd)
  | exception =>
    obtain rfl := hs.exception
    have hdead : SignalsCreated (k.setState k.current .exception) := h.same ⟨rfl, rfl⟩
    exact hdead.same (sameSignals_afterSyscall _ _)
  | createTask p t a kmod =>
    obtain rfl := hs.createTask
    have hcreate : SameSignals k (k.createTask p t a) :=
      sameSignals_enqueueThread ((k.__createTask p t a).addTask p) _
    split
    · exact (h.same hcreate).same ⟨rfl, rfl⟩
    · exact h.same hcreate

theorem SignalsCreated.started (h : Started k) : SignalsCreated k := by
  obtain ⟨k0, b, hz, -, -, rfl⟩ := h
  intro id
  simp [boot, createEmptyTask, __createTask, createThreadInfo, addTask, withCurrent, setState,
    __setMailbuffer, hz.signal, hz.curId]

theorem SignalsCreated.turn {x : Turn} (h : SignalsCreated k) (hs : TurnStep k x k') : SignalsCreated k' := by
  have hmoved : SignalsCreated (x.kernel k) := h.same ⟨rfl, rfl⟩
  exact hmoved.step hs

theorem SignalsCreated.run {es : List Turn} (h : Run Started TurnStep es k) : SignalsCreated k :=
  h.invariant (I := fun _ k => SignalsCreated k) (fun _ h0 => .started h0)
    fun _ _ _ _ hk hstep => hk.turn hstep

end TayHuang.Kernel
