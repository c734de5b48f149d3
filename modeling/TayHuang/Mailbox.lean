import TayHuang.LittleEndian
import TayHuang.Ring

/-! The mailbox of a task and its byte loops, syscalls.c. Every byte goes through
the page tables of its task: `pa` translates the mailbox, another function the
sender's or the receiver's buffer. -/

namespace TayHuang

open Function (update)
open LittleEndian Ring

structure Msgpack where
  reserved : UInt8
  messageNo : UInt8
  msgId : UInt16
  length : UInt16
  source : UInt16
  deriving DecidableEq, Repr

structure MsgnoId where
  messageNo : UInt8
  msgId : UInt16
  deriving DecidableEq, Repr

/-- `get_msgid`: the id, and the counter after it. -/
def getMsgid (counter : Nat) : Nat × Nat :=
  if counter = 65535 then (65535, 0) else (counter, counter + 1)

structure IpcInfo where
  mail : Nat
  writePtr : Nat
  readPtr : Nat
  mailSize : Nat
  usedSize : Nat
  allowPid : Int
  msgHandlerThread : Option Nat
  deriving DecidableEq, Repr

def Msgpack.bytes (p : Msgpack) : List UInt8 :=
  p.reserved :: p.messageNo :: (toBytes 2 p.msgId.toNat ++ toBytes 2 p.length.toNat ++
    toBytes 2 p.source.toNat)

def Msgpack.ofBytes (bs : List UInt8) : Msgpack where
  reserved := bs.getD 0 0
  messageNo := bs.getD 1 0
  msgId := UInt16.ofNat (LittleEndian.ofBytes ((bs.drop 2).take 2))
  length := UInt16.ofNat (LittleEndian.ofBytes ((bs.drop 4).take 2))
  source := UInt16.ofNat (LittleEndian.ofBytes ((bs.drop 6).take 2))

def increasePtr (mail mailSize ptr : Nat) : Nat :=
  let ptr := (ptr + 1) % 2 ^ 64
  if (mail + mailSize) % 2 ^ 64 ≤ ptr then mail else ptr

/-- The addresses that `ptr ++` goes through. -/
def addresses (a n : Nat) : List Nat := (List.range n).map fun i => (a + i) % 2 ^ 64

section Loops

variable (pa : Nat → Nat) (next : Nat → Nat)

/-- The header loop of `write_to_buffer`. -/
def pushBytes : List UInt8 → (Nat → UInt8) × Nat → (Nat → UInt8) × Nat
  | [], s => s
  | b :: bs, (mem, ptr) => pushBytes bs (update mem (pa ptr) b, next ptr)

/-- The body loop of `write_to_buffer`. -/
def copyIn (paSrc : Nat → Nat) : List Nat → (Nat → UInt8) × Nat → (Nat → UInt8) × Nat
  | [], s => s
  | a :: as, (mem, ptr) => copyIn paSrc as (update mem (pa ptr) (mem (paSrc a)), next ptr)

/-- The header loop of `read_from_buffer`. -/
def popBytes (mem : Nat → UInt8) : Nat → Nat → List UInt8 × Nat
  | 0, ptr => ([], ptr)
  | n + 1, ptr =>
    let r := popBytes mem n (next ptr)
    (mem (pa ptr) :: r.1, r.2)

/-- The body loop of `read_from_buffer`. -/
def copyOut (paDst : Nat → Nat) : List Nat → (Nat → UInt8) × Nat → (Nat → UInt8) × Nat
  | [], s => s
  | a :: as, (mem, ptr) => copyOut paDst as (update mem (paDst a) (mem (pa ptr)), next ptr)

end Loops

/-- `write_to_buffer`: the memory and `write_ptr` after it. -/
def writeToBuffer (pa paSrc : Nat → Nat) (ipc : IpcInfo) (pack : Msgpack) (src : Nat)
    (mem : Nat → UInt8) : (Nat → UInt8) × Nat :=
  let next := increasePtr ipc.mail ipc.mailSize
  copyIn pa next paSrc (addresses src pack.length.toNat)
    (pushBytes pa next pack.bytes (mem, ipc.writePtr))

/-- `read_from_buffer`: the header, and the memory and `read_ptr` after it. -/
def readFromBuffer (pa : Nat → Nat) (ipc : IpcInfo) (dst : Nat) (mem : Nat → UInt8) :
    Msgpack × (Nat → UInt8) × Nat :=
  let next := increasePtr ipc.mail ipc.mailSize
  let r := popBytes pa next mem 8 ipc.readPtr
  let pack := Msgpack.ofBytes r.1
  (pack, copyOut pa next pa (addresses dst pack.length.toNat) (mem, r.2))

/-! ### The header -/

@[simp] theorem Msgpack.length_bytes (p : Msgpack) : p.bytes.length = 8 := by
  simp [Msgpack.bytes]

theorem Msgpack.ofBytes_bytes (p : Msgpack) : Msgpack.ofBytes p.bytes = p := by
  have hfield : ∀ x : UInt16, UInt16.ofNat (LittleEndian.ofBytes (toBytes 2 x.toNat)) = x := by
    intro x
    rw [ofBytes_toBytes_of_lt x.toNat_lt, UInt16.ofNat_toNat]
  cases p
  simp only [Msgpack.ofBytes, Msgpack.bytes, List.drop_succ_cons, List.drop_zero, List.append_assoc,
    List.getD_cons_zero, List.getD_cons_succ, Msgpack.mk.injEq, true_and]
  refine ⟨?_, ?_, ?_⟩
  · rw [List.take_left' (length_toBytes _ _), hfield]
  · rw [List.drop_left' (length_toBytes _ _), List.take_left' (length_toBytes _ _), hfield]
  · rw [← List.append_assoc, List.drop_left' (by simp), List.take_of_length_le (by simp), hfield]

/-! ### The ring of the mailbox -/

/-- The bytes of the mailbox are different bytes of memory, and its end does not
wrap around. -/
structure Box (pa : Nat → Nat) (mail size : Nat) : Prop where
  pos : 0 < size
  top : mail + size < 2 ^ 64
  inj : ∀ i j, i < size → j < size → pa (mail + i) = pa (mail + j) → i = j

def cells (pa : Nat → Nat) (mail : Nat) (mem : Nat → UInt8) : Nat → UInt8 :=
  fun i => mem (pa (mail + i))

def InBox (pa : Nat → Nat) (mail size a : Nat) : Prop := ∃ i, i < size ∧ a = pa (mail + i)

/-- The bytes at a virtual address. -/
def span (pa : Nat → Nat) (a n : Nat) (mem : Nat → UInt8) : List UInt8 :=
  (addresses a n).map fun v => mem (pa v)

variable {pa : Nat → Nat} {mail size r k : Nat} {mem : Nat → UInt8}

theorem Box.next (h : Box pa mail size) {i : Nat} (hi : i < size) :
    increasePtr mail size (mail + i) = mail + advance size i := by
  have htop := h.top
  have h1 : (mail + i + 1) % 2 ^ 64 = mail + i + 1 := Nat.mod_eq_of_lt (by omega)
  have h2 : (mail + size) % 2 ^ 64 = mail + size := Nat.mod_eq_of_lt htop
  simp only [increasePtr, h1, h2, advance]
  by_cases he : i + 1 = size
  · rw [if_pos (by omega), if_pos he, Nat.add_zero]
  · rw [if_neg (by omega), if_neg he, Nat.add_assoc]

theorem Box.push (h : Box pa mail size) (hk : k < size) (b : UInt8) :
    window (cells pa mail (update mem (pa (mail + (r + k) % size)) b)) size r (k + 1) =
      window (cells pa mail mem) size r k ++ [b] := by
  rw [← window_push hk b]
  refine window_congr fun i _ => ?_
  have hlt : ∀ x, x % size < size := fun x => Nat.mod_lt x h.pos
  by_cases he : (r + i) % size = (r + k) % size
  · rw [he, Function.update_self, cells, Function.update_self]
  · have hne : pa (mail + (r + i) % size) ≠ pa (mail + (r + k) % size) :=
      fun hh => he (h.inj _ _ (hlt _) (hlt _) hh)
    rw [Function.update_of_ne he, cells, Function.update_of_ne hne, cells]

theorem pushBytes_spec (h : Box pa mail size) (bs : List UInt8) (hk : k + bs.length ≤ size) :
    (pushBytes pa (increasePtr mail size) bs (mem, mail + (r + k) % size)).2 =
        mail + (r + (k + bs.length)) % size ∧
      window (cells pa mail
          (pushBytes pa (increasePtr mail size) bs (mem, mail + (r + k) % size)).1) size r
          (k + bs.length) = window (cells pa mail mem) size r k ++ bs ∧
      ∀ a, ¬ InBox pa mail size a →
        (pushBytes pa (increasePtr mail size) bs (mem, mail + (r + k) % size)).1 a = mem a := by
  induction bs generalizing mem k with
  | nil => simp [pushBytes]
  | cons b bs ih =>
    rw [List.length_cons] at hk
    have hlt : (r + k) % size < size := Nat.mod_lt _ h.pos
    have hptr : increasePtr mail size (mail + (r + k) % size) = mail + (r + (k + 1)) % size := by
      rw [h.next hlt, advance_mod h.pos, Nat.add_assoc]
    simp only [pushBytes, hptr]
    obtain ⟨h1, h2, h3⟩ := ih (k := k + 1)
      (by omega)
    have hlen : k + (b :: bs).length = k + 1 + bs.length := by
      rw [List.length_cons]
      omega
    rw [hlen]
    refine ⟨h1, ?_, fun a ha => ?_⟩
    · rw [h2, h.push (by omega), List.append_assoc, List.singleton_append]
    · have hne : a ≠ pa (mail + (r + k) % size) := fun he => ha ⟨_, hlt, he⟩
      rw [h3 a ha, Function.update_of_ne hne]

/-- From a source outside the mailbox the body is a row of bytes as well. -/
theorem copyIn_eq (h : Box pa mail size) {paSrc : Nat → Nat} (as : List Nat)
    (hsrc : ∀ a ∈ as, ¬ InBox pa mail size (paSrc a)) :
    copyIn pa (increasePtr mail size) paSrc as (mem, mail + k % size) =
      pushBytes pa (increasePtr mail size) (as.map fun a => mem (paSrc a))
        (mem, mail + k % size) := by
  induction as generalizing mem k with
  | nil => rfl
  | cons a as ih =>
    have hlt : k % size < size := Nat.mod_lt _ h.pos
    have hptr : increasePtr mail size (mail + k % size) = mail + (k + 1) % size := by
      rw [h.next hlt, advance_mod h.pos]
    simp only [copyIn, List.map_cons, pushBytes, hptr]
    rw [ih (fun b hb => hsrc b (List.mem_cons_of_mem a hb))]
    congr 1
    refine List.map_congr_left fun b hb => Function.update_of_ne ?_ _ _
    intro he
    exact hsrc b (List.mem_cons_of_mem a hb) ⟨_, hlt, he⟩

theorem popBytes_spec (h : Box pa mail size) (hr : r < size) (n : Nat) :
    popBytes pa (increasePtr mail size) mem n (mail + r) =
      (window (cells pa mail mem) size r n, mail + (r + n) % size) := by
  induction n generalizing r with
  | zero => simp [popBytes, Nat.mod_eq_of_lt hr]
  | succ n ih =>
    simp only [popBytes, h.next hr, ih (advance_lt hr), window_succ hr, advance_add_mod hr]
    rfl

/-- To different bytes outside the mailbox the body is copied, and the mailbox keeps
its own. -/
theorem copyOut_spec (h : Box pa mail size) {paDst : Nat → Nat} (as : List Nat)
    (hnodup : (as.map paDst).Nodup) (hdst : ∀ a ∈ as, ¬ InBox pa mail size (paDst a))
    (hr : r < size) :
    (copyOut pa (increasePtr mail size) paDst as (mem, mail + r)).2 =
        mail + (r + as.length) % size ∧
      (as.map fun a => (copyOut pa (increasePtr mail size) paDst as (mem, mail + r)).1 (paDst a)) =
        window (cells pa mail mem) size r as.length ∧
      ∀ a, a ∉ as.map paDst →
        (copyOut pa (increasePtr mail size) paDst as (mem, mail + r)).1 a = mem a := by
  induction as generalizing mem r with
  | nil => simp [copyOut, Nat.mod_eq_of_lt hr]
  | cons b as ih =>
    rw [List.map_cons, List.nodup_cons] at hnodup
    simp only [copyOut, h.next hr]
    obtain ⟨h1, h2, h3⟩ := ih hnodup.2
      (fun a ha => hdst a (List.mem_cons_of_mem b ha)) (advance_lt hr)
    have hcells : window (cells pa mail (update mem (paDst b) (mem (pa (mail + r))))) size
        (advance size r) as.length = window (cells pa mail mem) size (advance size r) as.length := by
      refine window_congr fun i _ => Function.update_of_ne ?_ _ _
      intro he
      exact hdst b (by simp) ⟨_, Nat.mod_lt _ h.pos, he.symm⟩
    refine ⟨?_, ?_, fun a ha => ?_⟩
    · rw [h1, List.length_cons, advance_add_mod hr]
    · rw [List.map_cons, h2, hcells, List.length_cons, window_succ hr, h3 _ hnodup.1,
        Function.update_self]
      rfl
    · rw [List.map_cons, List.mem_cons, not_or] at ha
      rw [h3 a ha.2, Function.update_of_ne ha.1]

/-! ### A message -/

theorem span_eq {paSrc : Nat → Nat} {mem' : Nat → UInt8} {a n : Nat}
    (h : ∀ v ∈ addresses a n, mem' (paSrc v) = mem (paSrc v)) :
    span paSrc a n mem' = span paSrc a n mem :=
  List.map_congr_left h

@[simp] theorem length_addresses (a n : Nat) : (addresses a n).length = n := by
  simp [addresses]

@[simp] theorem length_span (a n : Nat) : (span pa a n mem).length = n := by
  simp [span]

theorem writeToBuffer_spec (mem : Nat → UInt8) {ipc : IpcInfo} {paSrc : Nat → Nat} {pack : Msgpack}
    {src : Nat} (h : Box pa ipc.mail ipc.mailSize)
    (hptr : ipc.writePtr = ipc.mail + (r + k) % ipc.mailSize)
    (hfit : k + (8 + pack.length.toNat) ≤ ipc.mailSize)
    (hsrc : ∀ a ∈ addresses src pack.length.toNat, ¬ InBox pa ipc.mail ipc.mailSize (paSrc a)) :
    (writeToBuffer pa paSrc ipc pack src mem).2 =
        ipc.mail + (r + (k + (8 + pack.length.toNat))) % ipc.mailSize ∧
      window (cells pa ipc.mail (writeToBuffer pa paSrc ipc pack src mem).1) ipc.mailSize r
          (k + (8 + pack.length.toNat)) =
        window (cells pa ipc.mail mem) ipc.mailSize r k ++
          (pack.bytes ++ span paSrc src pack.length.toNat mem) := by
  obtain ⟨h1, h2, h3⟩ := pushBytes_spec (r := r) (k := k) h pack.bytes
    (by rw [Msgpack.length_bytes]; omega)
  rw [← hptr, Msgpack.length_bytes] at h1 h2
  rw [← hptr] at h3
  simp only [writeToBuffer]
  generalize hs : pushBytes pa (increasePtr ipc.mail ipc.mailSize) pack.bytes (mem, ipc.writePtr) = s
    at h1 h2 h3 ⊢
  obtain ⟨mem1, ptr1⟩ := s
  simp only at h1 h2 h3 ⊢
  have hbody : (addresses src pack.length.toNat).map (fun a => mem1 (paSrc a)) =
      span paSrc src pack.length.toNat mem := span_eq fun v hv => h3 _ (hsrc v hv)
  rw [h1, copyIn_eq h _ hsrc, hbody]
  obtain ⟨g1, g2, -⟩ := pushBytes_spec (r := r) (k := k + 8) h
    (span paSrc src pack.length.toNat mem) (by rw [length_span]; omega)
  rw [length_span, Nat.add_assoc] at g1 g2
  refine ⟨g1, ?_⟩
  rw [g2, h2, List.append_assoc]

theorem readFromBuffer_spec {ipc : IpcInfo} {pack : Msgpack} {body rest : List UInt8} {dst : Nat}
    (h : Box pa ipc.mail ipc.mailSize) (hr : r < ipc.mailSize) (hptr : ipc.readPtr = ipc.mail + r)
    (hbody : body.length = pack.length.toNat)
    (hwin : window (cells pa ipc.mail mem) ipc.mailSize r
      (8 + pack.length.toNat + rest.length) = (pack.bytes ++ body) ++ rest)
    (hnodup : ((addresses dst pack.length.toNat).map pa).Nodup)
    (hdst : ∀ a ∈ addresses dst pack.length.toNat, ¬ InBox pa ipc.mail ipc.mailSize (pa a)) :
    ∃ mem', readFromBuffer pa ipc dst mem =
        (pack, mem', ipc.mail + (r + (8 + pack.length.toNat)) % ipc.mailSize) ∧
      window (cells pa ipc.mail mem') ipc.mailSize
        ((r + (8 + pack.length.toNat)) % ipc.mailSize) rest.length = rest ∧
      span pa dst pack.length.toNat mem' = body := by
  have hsplit := hwin
  rw [window_append, window_append] at hsplit
  obtain ⟨hmsg, hrest⟩ := List.append_inj hsplit (by simp [hbody])
  obtain ⟨hhead, htail⟩ := List.append_inj hmsg (by simp)
  have hlt : (r + 8) % ipc.mailSize < ipc.mailSize := Nat.mod_lt _ h.pos
  obtain ⟨h1, h2, h3⟩ := copyOut_spec h (addresses dst pack.length.toNat) hnodup hdst
    hlt
  rw [length_addresses] at h1 h2
  have hend : (((r + 8) % ipc.mailSize) + pack.length.toNat) % ipc.mailSize =
      (r + (8 + pack.length.toNat)) % ipc.mailSize := by
    rw [Nat.mod_add_mod, Nat.add_assoc]
  rw [hend] at h1
  unfold readFromBuffer
  simp only [hptr, popBytes_spec h hr, hhead, Msgpack.ofBytes_bytes]
  generalize hs : copyOut pa (increasePtr ipc.mail ipc.mailSize) pa
    (addresses dst pack.length.toNat) (mem, ipc.mail + (r + 8) % ipc.mailSize) = s at h1 h2 h3
  obtain ⟨mem', ptr'⟩ := s
  simp only at h1 h2 h3
  refine ⟨mem', by rw [h1], ?_, h2.trans htail⟩
  refine Eq.trans ?_ hrest
  refine window_congr fun i _ => h3 _ ?_
  intro hm
  obtain ⟨a, ha, he⟩ := List.mem_map.mp hm
  exact hdst a ha ⟨_, Nat.mod_lt _ h.pos, he⟩

end TayHuang
