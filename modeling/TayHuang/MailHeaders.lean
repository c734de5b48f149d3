import TayHuang.MailAdmission

/-! The headers of the messages that wait in a mailbox. They stay whatever the bodies are
copied from, and wherever outside of the mailbox they are copied to. -/

namespace TayHuang

open Ring

/-- One message behind the other from `r` on. -/
def HeadersAt (c : Nat → UInt8) (n : Nat) : Nat → List Msgpack → Prop
  | _, [] => True
  | r, x :: l => window c n r 8 = x.bytes ∧ HeadersAt c n (r + (8 + x.length.toNat)) l

def occupied (l : List Msgpack) : Nat := (l.map fun x => 8 + x.length.toNat).sum

/-- The mailbox of `p` has the messages `l`. -/
structure Headed (k : Kernel) (p r : Nat) (l : List Msgpack) : Prop where
  box : Box (k.pa p) (k.ipc p).mail (k.ipc p).mailSize
  small : (k.ipc p).mailSize < 2 ^ 63
  aligned : Aligned (k.ipc p) r
  used : (k.ipc p).usedSize = occupied l
  headers : HeadersAt (cells (k.pa p) (k.ipc p).mail k.mem) (k.ipc p).mailSize r l

/-! ### Rows of headers -/

section Rows

variable {c c' : Nat → UInt8} {n r : Nat} {l : List Msgpack} {x : Msgpack}

theorem window_mod (c : Nat → UInt8) (n r k : Nat) : window c n (r % n) k = window c n r k :=
  List.map_congr_left fun i _ => by rw [Nat.mod_add_mod]

@[simp] theorem occupied_nil : occupied [] = 0 := rfl

theorem occupied_cons (x : Msgpack) (l : List Msgpack) :
    occupied (x :: l) = 8 + x.length.toNat + occupied l := rfl

theorem occupied_snoc (l : List Msgpack) (x : Msgpack) :
    occupied (l ++ [x]) = occupied l + (8 + x.length.toNat) := by
  simp [occupied]

theorem HeadersAt.congr (h : HeadersAt c n r l)
    (hc : ∀ i < occupied l, c' ((r + i) % n) = c ((r + i) % n)) : HeadersAt c' n r l := by
  induction l generalizing r with
  | nil => trivial
  | cons x l ih =>
    rw [occupied_cons] at hc
    obtain ⟨hx, hl⟩ := h
    refine ⟨(window_congr fun i hi => hc i (by omega)).trans hx, ih hl fun i hi => ?_⟩
    have hi' := hc (8 + x.length.toNat + i) (by omega)
    rwa [← Nat.add_assoc] at hi'

theorem HeadersAt.snoc (h : HeadersAt c n r l) (hx : window c n (r + occupied l) 8 = x.bytes) :
    HeadersAt c n r (l ++ [x]) := by
  induction l generalizing r with
  | nil => exact ⟨hx, trivial⟩
  | cons y l ih =>
    obtain ⟨hy, hl⟩ := h
    rw [occupied_cons, ← Nat.add_assoc] at hx
    exact ⟨hy, ih hl hx⟩

end Rows

/-! ### One message more, one less -/

variable {k k' : Kernel} {p r : Nat} {l : List Msgpack} {x : Msgpack}

theorem Headed.congr (h : Headed k p r l)
    (hpa : ∀ i < (k.ipc p).mailSize, k'.pa p ((k.ipc p).mail + i) = k.pa p ((k.ipc p).mail + i))
    (hmem : ∀ i < (k.ipc p).mailSize, k'.mem (k.pa p ((k.ipc p).mail + i)) =
      k.mem (k.pa p ((k.ipc p).mail + i)))
    (hipc : ∃ allowed, k'.ipc p = { k.ipc p with allowPid := allowed }) : Headed k' p r l := by
  obtain ⟨allowed, hipc⟩ := hipc
  refine ⟨?_, ?_, ?_, ?_, ?_⟩
  · rw [hipc]
    refine ⟨h.box.pos, h.box.top, fun i j hi hj he => h.box.inj i j hi hj ?_⟩
    rwa [hpa i hi, hpa j hj] at he
  · rw [hipc]
    exact h.small
  · rw [hipc]
    exact h.aligned
  · rw [hipc]
    exact h.used
  · rw [hipc]
    refine h.headers.congr fun i _ => ?_
    have hlt : (r + i) % (k.ipc p).mailSize < (k.ipc p).mailSize := Nat.mod_lt _ h.box.pos
    simp only [cells, hpa _ hlt, hmem _ hlt]

theorem Headed.deliver {paSrc : Nat → Nat} {src size : Nat} {wakes : Bool} (h : Headed k p r l)
    (hsize : size < 2 ^ 16) (hpack : x.length = UInt16.ofNat size)
    (hroom : Kernel.HasRoom (k.ipc p) size) (hd : k.deliver p x paSrc src size wakes = some k') :
    Headed k' p r (l ++ [x]) := by
  have hlen : x.length.toNat = size := by
    rw [hpack, UInt16.toNat_ofNat_of_lt' (by simpa using hsize)]
  obtain ⟨hread, hwrite, hle, -, -⟩ := h.aligned
  have hsmall := h.small
  have hsum : (k.ipc p).usedSize + (8 + size) ≤ (k.ipc p).mailSize := by
    unfold Kernel.HasRoom at hroom
    omega
  have hmod : ((k.ipc p).usedSize + (8 + size)) % 2 ^ 64 = (k.ipc p).usedSize + (8 + size) :=
    Nat.mod_eq_of_lt (by omega)
  obtain ⟨state, freeNext, level0, rfl⟩ := Kernel.deliver_frame hd
  have hipc : (k.delivered p x paSrc src size).ipc p = { k.ipc p with
      usedSize := (k.ipc p).usedSize + (8 + size)
      writePtr := (increasePtr (k.ipc p).mail (k.ipc p).mailSize)^[8 + size] (k.ipc p).writePtr } := by
    simp only [Kernel.delivered, Function.update_self, hmod, writeToBuffer_ptr, hlen]
  refine ⟨?_, ?_, ?_, ?_, ?_⟩
  all_goals simp only [hipc]
  · exact h.box
  · exact h.small
  · exact h.aligned.accept h.box hsum
  · rw [occupied_snoc, hlen, h.used]
  · refine (h.headers.congr fun i hi => ?_).snoc ?_
    · have hkept : (writeToBuffer (k.pa p) paSrc (k.ipc p) x src k.mem).1 _ = k.mem _ :=
        writeToBuffer_kept h.box hread hwrite (by rw [hlen]; exact hsum) (h.used ▸ hi)
      rwa [hread, h.box.iterate] at hkept
    · have hheader : (popBytes (k.pa p) _ (writeToBuffer (k.pa p) paSrc (k.ipc p) x src k.mem).1 8
          (k.ipc p).writePtr).1 = x.bytes := writeToBuffer_header h.box hwrite (by omega)
      rwa [hwrite, popBytes_spec h.box (Nat.mod_lt _ h.box.pos), window_mod, h.used] at hheader

/-- The first message is received; only the bytes at `dst` are written. -/
theorem Headed.recv (h : Headed k k.currentTask r (x :: l)) (dst : Nat) :
    ∃ mem, k.__recvMsg dst = some (k.taken mem
        ((increasePtr (k.ipc k.currentTask).mail (k.ipc k.currentTask).mailSize)^[8 + x.length.toNat]
          (k.ipc k.currentTask).readPtr) (x.length.toNat + 8), x) ∧
      ∀ a, a ∉ (addresses dst x.length.toNat).map (k.pa k.currentTask) → mem a = k.mem a := by
  obtain ⟨hread, -, -, -, -⟩ := h.aligned
  have hused := h.used
  rw [occupied_cons] at hused
  have hlt : r % (k.ipc k.currentTask).mailSize < (k.ipc k.currentTask).mailSize :=
    Nat.mod_lt _ h.box.pos
  have hpop : popBytes (k.pa k.currentTask) _ k.mem 8 _ = _ := popBytes_spec h.box hlt 8
  rw [← hread, window_mod, h.headers.1] at hpop
  have hpack : (readFromBuffer (k.pa k.currentTask) (k.ipc k.currentTask) dst k.mem).1 = x := by
    simp only [readFromBuffer, hpop, Msgpack.ofBytes_bytes]
  have hptr : (readFromBuffer (k.pa k.currentTask) (k.ipc k.currentTask) dst k.mem).2.2 = _ :=
    readFromBuffer_ptr
  rw [hpack] at hptr
  refine ⟨(readFromBuffer (k.pa k.currentTask) (k.ipc k.currentTask) dst k.mem).2.1,
    Kernel.recvMsg_taken (by omega) ?_ (by omega), fun a ha => ?_⟩
  · exact Prod.ext hpack (Prod.ext rfl hptr)
  · simp only [readFromBuffer, hpop, Msgpack.ofBytes_bytes]
    exact copyOut_frame _ ha

theorem Headed.taken {mem : Nat → UInt8} {dst : Nat} (h : Headed k k.currentTask r (x :: l))
    (hdst : ∀ a ∈ addresses dst x.length.toNat, ¬ InMailbox k k.currentTask (k.pa k.currentTask a))
    (hmem : ∀ a, a ∉ (addresses dst x.length.toNat).map (k.pa k.currentTask) → mem a = k.mem a) :
    Headed (k.taken mem
        ((increasePtr (k.ipc k.currentTask).mail (k.ipc k.currentTask).mailSize)^[8 + x.length.toNat]
          (k.ipc k.currentTask).readPtr) (x.length.toNat + 8)) k.currentTask
      (r + (8 + x.length.toNat)) l := by
  have hused := h.used
  rw [occupied_cons] at hused
  have haligned := h.aligned.take (n := 8 + x.length.toNat) (by omega) (by omega)
  refine ⟨?_, ?_, ?_, ?_, ?_⟩
  all_goals simp only [Kernel.taken, Function.update_self]
  · exact h.box
  · exact h.small
  · rw [Nat.add_comm x.length.toNat]
    exact haligned
  · omega
  · refine h.headers.2.congr fun i _ => hmem _ fun hm => ?_
    obtain ⟨a, ha, he⟩ := List.mem_map.mp hm
    exact hdst a ha ⟨_, Nat.mod_lt _ h.box.pos, he⟩

end TayHuang
