import TayHuang.SyscallTouches

/-! What a system call does in another memory. Memories that agree on a set of addresses
with the bytes that the call goes through still do after it. -/

namespace TayHuang

open Function (update)

section Loops

variable {pa paSrc paDst next : Nat → Nat} {mem mem' : Nat → UInt8} {ptr : Nat} {S : Nat → Prop}

/-- Memories that agree on `S` still do when a byte of both is written. -/
theorem agree_update (h : ∀ a, S a → mem' a = mem a) (b : Nat) (x : UInt8) :
    ∀ a, S a → update mem' b x a = update mem b x a := by
  intro a ha
  by_cases hab : a = b
  · rw [hab, Function.update_self, Function.update_self]
  · rw [Function.update_of_ne hab, Function.update_of_ne hab, h a ha]

theorem pushBytes_agree (bs : List UInt8) (h : ∀ a, S a → mem' a = mem a) :
    ∀ a, S a → (pushBytes pa next bs (mem', ptr)).1 a = (pushBytes pa next bs (mem, ptr)).1 a := by
  induction bs generalizing mem mem' ptr with
  | nil => exact h
  | cons b bs ih => exact ih (agree_update h _ b)

theorem copyIn_agree (as : List Nat) (h : ∀ a, S a → mem' a = mem a) (hsrc : ∀ v ∈ as, S (paSrc v)) :
    ∀ a, S a →
      (copyIn pa next paSrc as (mem', ptr)).1 a = (copyIn pa next paSrc as (mem, ptr)).1 a := by
  induction as generalizing mem mem' ptr with
  | nil => exact h
  | cons v as ih =>
    rw [copyIn, copyIn, h _ (hsrc v List.mem_cons_self)]
    exact ih (agree_update h _ _) fun w hw => hsrc w (List.mem_cons_of_mem v hw)

theorem popBytes_agree (n : Nat) (h : ∀ i < n, mem' (pa (next^[i] ptr)) = mem (pa (next^[i] ptr))) :
    popBytes pa next mem' n ptr = popBytes pa next mem n ptr := by
  induction n generalizing ptr with
  | zero => rfl
  | succ n ih =>
    have hfirst : mem' (pa ptr) = mem (pa ptr) := h 0 (by omega)
    simp only [popBytes]
    rw [ih fun i hi => h (i + 1) (by omega), hfirst]

theorem copyOut_agree (as : List Nat) (h : ∀ a, S a → mem' a = mem a)
    (hring : ∀ i < as.length, S (pa (next^[i] ptr))) :
    ∀ a, S a →
      (copyOut pa next paDst as (mem', ptr)).1 a = (copyOut pa next paDst as (mem, ptr)).1 a := by
  induction as generalizing mem mem' ptr with
  | nil => exact h
  | cons v as ih =>
    rw [List.length_cons] at hring
    have hfirst : mem' (pa ptr) = mem (pa ptr) := h _ (hring 0 (by omega))
    rw [copyOut, copyOut, hfirst]
    exact ih (agree_update h _ _) fun i hi => hring (i + 1) (by omega)

end Loops

section Buffers

variable {pa paSrc : Nat → Nat} {ipc : IpcInfo} {pack : Msgpack} {mem mem' : Nat → UInt8}
variable {src dst : Nat} {S : Nat → Prop}

theorem writeToBuffer_agree (h : ∀ a, S a → mem' a = mem a)
    (hsrc : ∀ v ∈ addresses src pack.length.toNat, S (paSrc v)) :
    (writeToBuffer pa paSrc ipc pack src mem').2 = (writeToBuffer pa paSrc ipc pack src mem).2 ∧
      ∀ a, S a → (writeToBuffer pa paSrc ipc pack src mem').1 a =
        (writeToBuffer pa paSrc ipc pack src mem).1 a := by
  refine ⟨by rw [writeToBuffer_ptr, writeToBuffer_ptr], ?_⟩
  simp only [writeToBuffer]
  rw [← Prod.mk.eta (p := pushBytes pa _ pack.bytes (mem', ipc.writePtr)),
    ← Prod.mk.eta (p := pushBytes pa _ pack.bytes (mem, ipc.writePtr)), pushBytes_ptr, pushBytes_ptr]
  exact copyIn_agree _ (pushBytes_agree _ h) hsrc

theorem readFromBuffer_agree (h : ∀ a, S a → mem' a = mem a)
    (hring : ∀ i < 8 + (readFromBuffer pa ipc dst mem).1.length.toNat,
      S (pa ((increasePtr ipc.mail ipc.mailSize)^[i] ipc.readPtr))) :
    (readFromBuffer pa ipc dst mem').1 = (readFromBuffer pa ipc dst mem).1 ∧
      (readFromBuffer pa ipc dst mem').2.2 = (readFromBuffer pa ipc dst mem).2.2 ∧
      ∀ a, S a → (readFromBuffer pa ipc dst mem').2.1 a = (readFromBuffer pa ipc dst mem).2.1 a := by
  have hpop : popBytes pa (increasePtr ipc.mail ipc.mailSize) mem' 8 ipc.readPtr =
      popBytes pa (increasePtr ipc.mail ipc.mailSize) mem 8 ipc.readPtr :=
    popBytes_agree 8 fun i hi => h _ (hring i (by omega))
  have hpack : (readFromBuffer pa ipc dst mem').1 = (readFromBuffer pa ipc dst mem).1 := by
    simp only [readFromBuffer, hpop]
  refine ⟨hpack, by rw [readFromBuffer_ptr, readFromBuffer_ptr, hpack], ?_⟩
  simp only [readFromBuffer] at hring ⊢
  rw [hpop]
  refine copyOut_agree _ h fun i hi => ?_
  rw [length_addresses] at hi
  rw [popBytes_ptr, ← Function.iterate_add_apply]
  exact hring (i + 8) (by omega)

end Buffers

namespace Kernel

variable {k k' : Kernel} {call : Syscall} {fuel a : Nat} {r : UInt64}

theorem enqueueThread_withMemory (k : Kernel) (m : Nat → UInt8) (t : Nat) :
    (k.withMemory m k.pt).enqueueThread t = (k.enqueueThread t).withMemory m k.pt := by
  have hlevel : (k.withMemory m k.pt).level t = k.level t := rfl
  unfold enqueueThread
  rw [hlevel]
  split
  · rfl
  · split
    · rfl
    · rfl

theorem enqueueThread_pt (k : Kernel) (t : Nat) : (k.enqueueThread t).pt = k.pt := by
  obtain ⟨freeNext, level0, he⟩ := enqueueThread_eq k t
  rw [he]

theorem deliver_withMemory {p src size : Nat} {pack : Msgpack} {paSrc : Nat → Nat} {wakes : Bool}
    (m : Nat → UInt8) (h : k.deliver p pack paSrc src size wakes = some k') :
    (k.withMemory m k.pt).deliver p pack paSrc src size wakes =
      some (k'.withMemory (writeToBuffer (k.pa p) paSrc (k.ipc p) pack src m).1 k'.pt) := by
  have hdelivered : (k.withMemory m k.pt).delivered p pack paSrc src size =
      (k.delivered p pack paSrc src size).withMemory
        (writeToBuffer (k.pa p) paSrc (k.ipc p) pack src m).1 k.pt := by
    have hptr : (writeToBuffer (k.pa p) paSrc (k.ipc p) pack src m).2 =
        (writeToBuffer (k.pa p) paSrc (k.ipc p) pack src k.mem).2 := by
      rw [writeToBuffer_ptr, writeToBuffer_ptr]
    have hpa : (k.withMemory m k.pt).pa p = k.pa p := rfl
    simp only [delivered, hpa]
    simp only [withMemory, hptr]
  rw [deliver_eq] at h ⊢
  obtain ⟨t, ht, rfl⟩ := Option.map_eq_some_iff.mp h
  have ht' : ((k.withMemory m k.pt).ipc p).msgHandlerThread = some t := ht
  have hstate : (k.withMemory m k.pt).state = k.state := rfl
  rw [ht', Option.map_some, hdelivered, hstate]
  split
  · rw [enqueueThread_pt]
    exact congrArg some (enqueueThread_withMemory
      ((k.delivered p pack paSrc src size).setState t .ready) _ t)
  · rfl

theorem deliver_mem {p src size : Nat} {pack : Msgpack} {paSrc : Nat → Nat} {wakes : Bool}
    (h : k.deliver p pack paSrc src size wakes = some k') :
    k'.mem = (writeToBuffer (k.pa p) paSrc (k.ipc p) pack src k.mem).1 := by
  obtain ⟨state, freeNext, level0, rfl⟩ := deliver_frame h
  rfl

section Messages

variable {S : Nat → Prop} {m : Nat → UInt8} {msgno : MsgnoId} {reserved : UInt8} {p src size : Nat} {dst : Int}

theorem touches_admitted (h : Admits k k.sendAllowed size dst p) :
    k.touches (.sendMsg msgno reserved src size dst) = messagePointers p k.currentTask (k.ipc p)
      (k.ipc p).writePtr src (UInt16.ofNat size).toNat := by
  obtain ⟨hp, hroom, hallow⟩ := h
  simp only [touches, hp]
  refine if_neg ?_
  rw [not_or, not_and_or, not_not, not_not]
  exact ⟨Nat.not_lt.mpr hroom, hallow⟩

theorem touches_refused (h : ∀ p, ¬ Admits k k.sendAllowed size dst p) :
    k.touches (.sendMsg msgno reserved src size dst) = [] := by
  cases hp : k.getTaskByPid dst with
  | none => simp only [touches, hp]
  | some p =>
    simp only [touches, hp]
    refine if_pos ?_
    by_contra hpass
    rw [not_or, not_and_or, not_not, not_not] at hpass
    exact h p ⟨hp, Nat.le_of_not_lt hpass.1, hpass.2⟩

theorem sendMsg_reads {b : Bool}
    (hS : ∀ x ∈ k.touches (.sendMsg msgno reserved src size dst), S (k.pa x.1 x.2))
    (hm : ∀ a, S a → m a = k.mem a)
    (h : k.__sendMsg msgno reserved src size dst = some (k', b)) :
    ∃ m', (k.withMemory m k.pt).__sendMsg msgno reserved src size dst =
        some (k'.withMemory m' k'.pt, b) ∧ ∀ a, S a → m' a = k'.mem a := by
  by_cases hadm : ∃ p, Admits k k.sendAllowed size dst p
  · obtain ⟨p, hp⟩ := hadm
    have hp' : Admits (k.withMemory m k.pt) (k.withMemory m k.pt).sendAllowed size dst p := hp
    rw [sendMsg_admitted hp] at h
    obtain ⟨k1, hd, he⟩ := Option.map_eq_some_iff.mp h
    obtain ⟨rfl, rfl⟩ := Prod.mk.inj he
    rw [touches_admitted hp] at hS
    rw [sendMsg_admitted hp']
    refine ⟨_, Option.map_eq_some_iff.mpr ⟨_, deliver_withMemory m hd, rfl⟩, fun a ha => ?_⟩
    rw [deliver_mem hd]
    refine (writeToBuffer_agree hm fun v hv => ?_).2 a ha
    exact hS (k.currentTask, v) (List.mem_append_right _ (List.mem_map_of_mem hv))
  · have hrefused : ∀ p, ¬ Admits k k.sendAllowed size dst p := fun p hp => hadm ⟨p, hp⟩
    have hrefused' : ∀ p, ¬ Admits (k.withMemory m k.pt) (k.withMemory m k.pt).sendAllowed size dst p :=
      hrefused
    rw [sendMsg_refused hrefused] at h
    obtain ⟨rfl, rfl⟩ := Prod.mk.inj (Option.some.inj h)
    exact ⟨m, sendMsg_refused hrefused', hm⟩

theorem recvMsg_reads {buffer : Nat} {pack : Msgpack}
    (hS : ∀ x ∈ k.touches (.recvMsg buffer), S (k.pa x.1 x.2)) (hm : ∀ a, S a → m a = k.mem a)
    (h : k.__recvMsg buffer = some (k', pack)) :
    ∃ m', (k.withMemory m k.pt).__recvMsg buffer = some (k'.withMemory m' k'.pt, pack) ∧
      ∀ a, S a → m' a = k'.mem a := by
  simp only [__recvMsg] at h
  by_cases hused : (k.ipc k.currentTask).usedSize = 0
  · rw [if_pos hused] at h
    obtain ⟨rfl, rfl⟩ := Prod.mk.inj (Option.some.inj h)
    exact ⟨m, recvMsg_empty hused, hm⟩
  · rw [if_neg hused] at h
    split at h
    · next hle =>
      obtain ⟨rfl, rfl⟩ := Prod.mk.inj (Option.some.inj h)
      simp only [touches, if_neg hused] at hS
      obtain ⟨hpack, hptr, hagree⟩ := readFromBuffer_agree hm fun i hi =>
        hS (k.currentTask, _) (List.mem_append_left _
          (List.mem_map_of_mem (mem_ringPointers.mpr ⟨i, hi, rfl⟩)))
      have hread : readFromBuffer (k.pa k.currentTask) (k.ipc k.currentTask) buffer m =
          ((readFromBuffer (k.pa k.currentTask) (k.ipc k.currentTask) buffer k.mem).1,
            (readFromBuffer (k.pa k.currentTask) (k.ipc k.currentTask) buffer m).2.1,
            (readFromBuffer (k.pa k.currentTask) (k.ipc k.currentTask) buffer k.mem).2.2) := by
        rw [← hpack, ← hptr]
      have hrecv : (k.withMemory m k.pt).__recvMsg buffer = _ := recvMsg_taken hused hread hle
      exact ⟨_, hrecv, hagree⟩
    · simp at h

end Messages

theorem createThread_withMemory {t : Nat} {entry args : UInt64} (m : Nat → UInt8)
    (h : k.__createThread fuel t entry args = some k') :
    (k.withMemory m k.pt).__createThread fuel t entry args = some (k'.withMemory m k'.pt) ∧
      k'.mem = k.mem := by
  obtain ⟨k1, hk1, rfl⟩ := Option.map_eq_some_iff.mp h
  obtain ⟨parent, hparent, rfl⟩ := Option.map_eq_some_iff.mp hk1
  have hcreate : (k.withMemory m k.pt).__createThread__ fuel t entry k.currentTask =
      some ((((k.spawnThread t entry k.currentTask).linkThread parent t).enqueueThread t).withMemory m
        (((k.spawnThread t entry k.currentTask).linkThread parent t).enqueueThread t).pt) := by
    refine Option.map_eq_some_iff.mpr ⟨parent, hparent, ?_⟩
    rw [enqueueThread_pt]
    exact enqueueThread_withMemory ((k.spawnThread t entry k.currentTask).linkThread parent t) m t
  exact ⟨Option.map_eq_some_iff.mpr ⟨_, hcreate, rfl⟩,
    enqueueThread_mem ((k.spawnThread t entry k.currentTask).linkThread parent t) t⟩

section Calls

variable {S : Nat → Prop} {m : Nat → UInt8}

theorem testAndLock_reads {val : Nat} (hS : S (k.pa k.currentTask val)) (hm : ∀ a, S a → m a = k.mem a) :
    ∃ m', (k.withMemory m k.pt).__testAndLock val =
        ((k.__testAndLock val).1.withMemory m' k.pt, (k.__testAndLock val).2) ∧
      (k.__testAndLock val).1.pt = k.pt ∧ ∀ a, S a → m' a = (k.__testAndLock val).1.mem a := by
  have hval : m (k.pa k.currentTask val) = k.mem (k.pa k.currentTask val) := hm _ hS
  by_cases hz : k.mem (k.pa k.currentTask val) ≠ 0
  · have hlock : k.__testAndLock val = (k, false) := if_pos hz
    rw [hlock]
    exact ⟨m, if_pos (by rwa [← hval] at hz), rfl, hm⟩
  · have hlock : k.__testAndLock val = (k.locked val, true) := if_neg hz
    rw [hlock]
    exact ⟨_, if_neg (by rwa [← hval] at hz), rfl, agree_update hm _ _⟩

theorem upSignal_withMemory {id : Nat} (m : Nat → UInt8) (h : k.__upSignal id = some k') :
    (k.withMemory m k.pt).__upSignal id = some (k'.withMemory m k'.pt) ∧ k'.mem = k.mem := by
  obtain ⟨s, s', hs, hup⟩ := upSignal_effect h
  have hs' : (k.withMemory m k.pt).signal id = some s := hs
  rcases hup with ⟨hr, rfl⟩ | ⟨t, hr, rfl⟩
  · simp only [__upSignal, hs', Option.bind_some, hr, Option.map_some]
    exact ⟨rfl, rfl⟩
  · simp only [__upSignal, hs', Option.bind_some, hr, Option.map_some]
    rw [enqueueThread_pt, enqueueThread_mem]
    exact ⟨congrArg some (enqueueThread_withMemory ((k.setSignal id s').setState t .ready) m t), rfl⟩

theorem downSignal_withMemory {id : Nat} (m : Nat → UInt8) (h : k.__downSignal id = some k') :
    (k.withMemory m k.pt).__downSignal id = some (k'.withMemory m k'.pt) ∧ k'.mem = k.mem := by
  obtain ⟨s, s', hs, hdown⟩ := downSignal_effect h
  have hs' : (k.withMemory m k.pt).signal id = some s := hs
  have hcur : (k.withMemory m k.pt).current = k.current := rfl
  rcases hdown with ⟨hr, rfl⟩ | ⟨hr, rfl⟩
  · simp only [__downSignal, hs', hcur, Option.map_some, hr]
    exact ⟨rfl, rfl⟩
  · simp only [__downSignal, hs', hcur, Option.map_some, hr]
    exact ⟨rfl, rfl⟩

theorem checkIpc_withMemory (k : Kernel) (m : Nat → UInt8) :
    (k.withMemory m k.pt).__checkIpc = k.__checkIpc.withMemory m k.__checkIpc.pt ∧
      k.__checkIpc.mem = k.mem := by
  have hipc : (k.withMemory m k.pt).ipc (k.withMemory m k.pt).currentTask = k.ipc k.currentTask := rfl
  unfold __checkIpc
  rw [hipc]
  split
  · exact ⟨rfl, rfl⟩
  · split
    · exact ⟨rfl, rfl⟩
    · exact ⟨rfl, rfl⟩

/-- What a call returns, and what it leaves in a part of memory that has the pointers it
goes through, depends on this part alone. -/
theorem syscall_reads (hS : ∀ x ∈ k.touches call, S (k.pa x.1 x.2)) (hm : ∀ a, S a → m a = k.mem a)
    (h : k.syscall fuel call = some (k', r)) :
    ∃ m', (k.withMemory m k.pt).syscall fuel call = some (k'.withMemory m' k'.pt, r) ∧
      ∀ a, S a → m' a = k'.mem a := by
  cases call with
  | sendMsg msgno reserved src size dst =>
    obtain ⟨⟨k1, b⟩, hk, he⟩ := Option.map_eq_some_iff.mp h
    obtain ⟨rfl, rfl⟩ := Prod.mk.inj he
    obtain ⟨m', hsend, hagree⟩ := sendMsg_reads hS hm hk
    exact ⟨m', Option.map_eq_some_iff.mpr ⟨_, hsend, rfl⟩, hagree⟩
  | recvMsg dst =>
    obtain ⟨⟨k1, pack⟩, hk, he⟩ := Option.map_eq_some_iff.mp h
    obtain ⟨rfl, rfl⟩ := Prod.mk.inj he
    obtain ⟨m', hrecv, hagree⟩ := recvMsg_reads hS hm hk
    exact ⟨m', Option.map_eq_some_iff.mpr ⟨_, hrecv, rfl⟩, hagree⟩
  | testAndLock val =>
    obtain ⟨m', hlock, hpt, hagree⟩ := testAndLock_reads (hS (k.currentTask, val) List.mem_cons_self) hm
    obtain ⟨rfl, rfl⟩ := Prod.mk.inj (Option.some.inj h)
    refine ⟨m', ?_, hagree⟩
    simp only [syscall, hlock, hpt]
  | upSignal id =>
    obtain ⟨k1, hup, he⟩ := Option.map_eq_some_iff.mp h
    obtain ⟨rfl, rfl⟩ := Prod.mk.inj he
    obtain ⟨hup', hmem⟩ := upSignal_withMemory m hup
    exact ⟨m, Option.map_eq_some_iff.mpr ⟨_, hup', rfl⟩, fun a ha => (hm a ha).trans (hmem ▸ rfl)⟩
  | downSignal id =>
    obtain ⟨k1, hdown, he⟩ := Option.map_eq_some_iff.mp h
    obtain ⟨rfl, rfl⟩ := Prod.mk.inj he
    obtain ⟨hdown', hmem⟩ := downSignal_withMemory m hdown
    exact ⟨m, Option.map_eq_some_iff.mpr ⟨_, hdown', rfl⟩, fun a ha => (hm a ha).trans (hmem ▸ rfl)⟩
  | createThread t entry args =>
    obtain ⟨k1, hcreate, he⟩ := Option.map_eq_some_iff.mp h
    obtain ⟨rfl, rfl⟩ := Prod.mk.inj he
    obtain ⟨hcreate', hmem⟩ := createThread_withMemory m hcreate
    have htid : (k1.withMemory m k1.pt).tid = k1.tid := rfl
    refine ⟨m, Option.map_eq_some_iff.mpr ⟨_, hcreate', by rw [htid]⟩, ?_⟩
    rw [hmem]
    exact hm
  | getSignals id | isSoftSignal id =>
    obtain ⟨s, hs, he⟩ := Option.map_eq_some_iff.mp h
    obtain ⟨rfl, rfl⟩ := Prod.mk.inj he
    exact ⟨m, Option.map_eq_some_iff.mpr ⟨s, hs, rfl⟩, hm⟩
  | checkIpc =>
    obtain ⟨rfl, rfl⟩ := Prod.mk.inj (Option.some.inj h)
    obtain ⟨hcheck, hmem⟩ := checkIpc_withMemory k m
    refine ⟨m, ?_, fun a ha => (hm a ha).trans (hmem ▸ rfl)⟩
    rw [syscall, hcheck]
  | setAllow | setMailbuffer | createSignal | regIrq | exitThread | moo =>
    obtain ⟨rfl, rfl⟩ := Prod.mk.inj (Option.some.inj h)
    exact ⟨m, rfl, hm⟩

end Calls

end Kernel

end TayHuang
