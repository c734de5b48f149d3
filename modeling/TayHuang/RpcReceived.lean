import TayHuang.RpcAgreement

/-! What a server hands to a function of a message that it received. The size in the header
counts, and the length of the message is not looked at. -/

namespace TayHuang

namespace RpcServer

open Marshalling

/-- The arguments are those of the header, and in the `n` bytes of the message. -/
structure Received (msg : Cursor) (n : Nat) (args : RpcArgs) : Prop where
  declared : args.size = ((argsSizeOf msg).toNat : Int)
  nonneg : 0 ≤ args.size
  inside : 16 + args.size ≤ n
  bytes : ∀ a : Nat, args.data.ptr ≤ a → (a : Int) < args.data.ptr + args.size →
    msg.ptr ≤ a ∧ a < msg.ptr + n

/-- Whatever function the message gets to has received arguments. -/
def OnlyReceived {ρ : Type} (infos : List (ProccessInfo ρ)) (msg : Cursor) (n : Nat) : Prop :=
  ∀ info funcNo args, checkRequest infos msg = .ok (info, funcNo, args) → Received msg n args

variable {ρ : Type} {infos : List (ProccessInfo ρ)} {info : ProccessInfo ρ} {msg msg' : Cursor}
  {n k : Nat} {args args' : RpcArgs}

/-- A message is at most 65535 bytes long, so that its arguments fit into the 20 bits. -/
theorem received_iff (hn : n < 65536) :
    Received msg n (argsOf msg) ↔ 16 + (argsSizeOf msg).toNat ≤ n := by
  constructor
  · rintro ⟨hdeclared, -, hinside, -⟩
    rw [hdeclared] at hinside
    omega
  · intro h
    have hsize : (argsOf msg).size = ((argsSizeOf msg).toNat : Int) := int20_of_lt (by omega)
    have hptr : (argsOf msg).data.ptr = msg.ptr + 16 := rfl
    refine ⟨hsize, by omega, by omega, fun a ha hlt => ?_⟩
    rw [hsize, hptr] at hlt
    rw [hptr] at ha
    omega

/-- A function sees only bytes of the message if and only if every message that passes the
checks is as long as its header says. -/
theorem served_received (infos : List (ProccessInfo ρ)) (server : Server) (junk : Nat → UInt8)
    (pack : Msgpack) (msg : Cursor) :
    OnlyReceived infos (request server junk pack msg) pack.length.toNat ↔
      ∀ info, Accepted infos (request server junk pack msg) info →
        16 + (argsSizeOf (request server junk pack msg)).toNat ≤ pack.length.toNat := by
  constructor
  · intro h info hacc
    have hreceived := h info _ _ (checkRequest_ok_iff.mpr ⟨hacc, rfl, rfl⟩)
    exact (received_iff pack.length.toNat_lt).mp hreceived
  · intro h info funcNo args hok
    obtain ⟨hacc, -, rfl⟩ := checkRequest_ok_iff.mp hok
    exact (received_iff pack.length.toNat_lt).mpr (h info hacc)

/-- The request of a string without the string. -/
def shortPuts : List UInt8 := qword.encode 2 ++ (dword.encode 8 ++ dword.encode 1)

/-- `wrapper_puts` of the console gets 8 bytes of arguments from a message that has only
the header. -/
theorem served_behind : ¬ OnlyReceived Service.tty.infos
    (request .module (fun _ => 0) ⟨0, 1, 5, 16, 7⟩ ⟨store (fun _ => 0) 0 shortPuts, 0⟩) 16 := by
  intro h
  have hholds : Cursor.Holds (request .module (fun _ => 0) ⟨0, 1, 5, 16, 7⟩
      ⟨store (fun _ => 0) 0 shortPuts, 0⟩) shortPuts :=
    request_holds (holds_store _ 0 _) (by decide)
  generalize request .module (fun _ => 0) ⟨0, 1, 5, 16, 7⟩ ⟨store (fun _ => 0) 0 shortPuts, 0⟩ = m at *
  rw [← List.append_nil shortPuts, shortPuts, List.append_assoc, List.append_assoc] at hholds
  obtain ⟨hfuncOf, hsizeOf, hretOf, -⟩ := header_holds hholds
  have hacc : Accepted Service.tty.infos m (registered 2 wrapperPuts 1 anySize) := by
    refine ⟨?_, .inr rfl, .inl hretOf⟩
    rw [hfuncOf]
    rfl
  have hinside := (h _ _ _ (checkRequest_ok_iff.mpr ⟨hacc, rfl, rfl⟩)).inside
  have hargs : (argsOf m).size = 8 := by
    rw [argsOf, hsizeOf]
    exact int20_of_lt (by decide)
  rw [hargs] at hinside
  omega

/-! ### Functions that keep to the size -/

/-- The same `n` bytes are at the two pointers. -/
def SameBytes (n : Nat) (s t : Cursor) : Prop := ∀ i < n, t.mem (t.ptr + i) = s.mem (s.ptr + i)

/-- With arguments of a size that is accepted, what the function reads is inside of them. -/
def Guarded (info : ProccessInfo ρ) : Prop :=
  ∀ source funcNo args args', 0 ≤ args.size → args.size < 524288 → args'.size = args.size →
    (args.size = (info.argsSize.toNat : Int) ∨ info.argsSize = anySize) →
    SameBytes args.size.toNat args.data args'.data →
      info.proccess source funcNo args' = info.proccess source funcNo args

section Guards

variable {s t : Cursor}

theorem SameBytes.load_eq (h : SameBytes n s t) (hk : k ≤ n) : load t.mem t.ptr k = load s.mem s.ptr k :=
  load_congr fun i hi => h i (by omega)

theorem SameBytes.drop (h : SameBytes n s t) (hk : k ≤ n) :
    SameBytes (n - k) ⟨s.mem, s.ptr + k⟩ ⟨t.mem, t.ptr + k⟩ := by
  intro i hi
  have hki := h (k + i) (by omega)
  simpa only [Nat.add_assoc] using hki

theorem SameBytes.argRead {α : Type*} (c : Codec α) (h : SameBytes n s t) (hc : c.size ≤ n) :
    (argRead c t).1 = (argRead c s).1 ∧ SameBytes (n - c.size) (argRead c s).2 (argRead c t).2 :=
  ⟨congrArg c.decode (h.load_eq hc), h.drop hc⟩

theorem SameBytes.readChars_eq (h : SameBytes n s t) (hk : k ≤ n) : readChars k t = readChars k s := by
  rw [RpcServer.readChars_eq, RpcServer.readChars_eq]
  exact h.load_eq hk

theorem guarded_fixed {funcNo : UInt64} {wrapper : RpcArgs → Option Call}
    {returnSize argsSize : UInt32} (hany : argsSize ≠ anySize)
    (h : ∀ args args' : RpcArgs, SameBytes argsSize.toNat args.data args'.data →
      wrapper args' = wrapper args) : Guarded (registered funcNo wrapper returnSize argsSize) := by
  intro source func args args' _ _ _ hsize hsame
  rcases hsize with hsize | hsize
  · have hnat : args.size.toNat = argsSize.toNat := by
      rw [hsize]
      rfl
    exact h args args' (hnat ▸ hsame)
  · exact absurd hsize hany

theorem guarded_any {funcNo : UInt64} {wrapper : RpcArgs → Option Call} {returnSize : UInt32}
    (h : ∀ args args' : RpcArgs, 0 ≤ args.size → args.size < 524288 → args'.size = args.size →
      SameBytes args.size.toNat args.data args'.data → wrapper args' = wrapper args) :
    Guarded (registered funcNo wrapper returnSize anySize) :=
  fun _ _ args args' hnonneg hlt hsize _ hsame => h args args' hnonneg hlt hsize hsame

theorem size_checked {size : Int} {base : Nat} {num : Int32} (h0 : 0 ≤ size) (hlt : size < 524288)
    (hbase : ¬ sizeT size < base) (h : ¬ sizeT size ≠ sizeT (base + num.toInt)) :
    base + num.toInt.toNat = size.toNat := by
  have hnum := num.toInt_lt
  have hge := num.le_toInt
  unfold sizeT at h hbase
  omega

theorem wrapperShareMemory_same {args args' : RpcArgs} (h : SameBytes 16 args.data args'.data) :
    wrapperShareMemory args' = wrapperShareMemory args := by
  obtain ⟨haddr, h⟩ := h.argRead qword (by decide)
  obtain ⟨hpages, h⟩ := h.argRead int (by decide)
  have htarget := (h.argRead int (by decide)).1
  simp only [wrapperShareMemory, haddr, hpages, htarget]

theorem wrapperWriteChar_same {args args' : RpcArgs} (h : SameBytes 10 args.data args'.data) :
    wrapperWriteChar args' = wrapperWriteChar args := by
  obtain ⟨hcolumn, h⟩ := h.argRead int (by decide)
  obtain ⟨hline, h⟩ := h.argRead int (by decide)
  obtain ⟨hcolor, h⟩ := h.argRead byte (by decide)
  have hch := (h.argRead byte (by decide)).1
  simp only [wrapperWriteChar, hcolumn, hline, hcolor, hch]

theorem wrapperCreateFramebuffer_same {args args' : RpcArgs}
    (h : SameBytes 16 args.data args'.data) :
    wrapperCreateFramebuffer args' = wrapperCreateFramebuffer args := by
  obtain ⟨hcolumn, h⟩ := h.argRead int (by decide)
  obtain ⟨hline, h⟩ := h.argRead int (by decide)
  obtain ⟨hwidth, h⟩ := h.argRead int (by decide)
  have hheight := (h.argRead int (by decide)).1
  simp only [wrapperCreateFramebuffer, hcolumn, hline, hwidth, hheight]

theorem wrapperPutchar_same {args args' : RpcArgs} (h : SameBytes 5 args.data args'.data) :
    wrapperPutchar args' = wrapperPutchar args := by
  obtain ⟨hconsole, h⟩ := h.argRead int (by decide)
  have hch := (h.argRead byte (by decide)).1
  simp only [wrapperPutchar, hconsole, hch]

theorem wrapperPuts_same {args args' : RpcArgs} (h0 : 0 ≤ args.size) (hlt : args.size < 524288)
    (hsize : args'.size = args.size) (h : SameBytes args.size.toNat args.data args'.data) :
    wrapperPuts args' = wrapperPuts args := by
  unfold wrapperPuts
  simp only [hsize]
  by_cases hbase : sizeT args.size < 8
  · rw [if_pos hbase, if_pos hbase]
  · have hroom : 8 ≤ args.size.toNat := by
      unfold sizeT at hbase
      omega
    obtain ⟨hconsole, h⟩ := h.argRead int (show 4 ≤ _ by omega)
    obtain ⟨hnum, h⟩ := h.argRead int (show 4 ≤ args.size.toNat - 4 by omega)
    rw [if_neg hbase, if_neg hbase, hconsole, hnum]
    split
    · rfl
    · next hsame =>
      have hcount : 8 + _ = args.size.toNat := size_checked h0 hlt hbase hsame
      rw [h.readChars_eq (show _ ≤ args.size.toNat - 4 - 4 by omega)]

theorem wrapperWriteString_same {args args' : RpcArgs} (h0 : 0 ≤ args.size)
    (hlt : args.size < 524288) (hsize : args'.size = args.size)
    (h : SameBytes args.size.toNat args.data args'.data) :
    wrapperWriteString args' = wrapperWriteString args := by
  unfold wrapperWriteString
  simp only [hsize]
  by_cases hbase : sizeT args.size < 13
  · rw [if_pos hbase, if_pos hbase]
  · have hroom : 13 ≤ args.size.toNat := by
      unfold sizeT at hbase
      omega
    obtain ⟨hcolumn, h⟩ := h.argRead int (show 4 ≤ _ by omega)
    obtain ⟨hline, h⟩ := h.argRead int (show 4 ≤ args.size.toNat - 4 by omega)
    obtain ⟨hcolor, h⟩ := h.argRead byte (show 1 ≤ args.size.toNat - 4 - 4 by omega)
    obtain ⟨hnum, h⟩ := h.argRead int (show 4 ≤ args.size.toNat - 4 - 4 - 1 by omega)
    rw [if_neg hbase, if_neg hbase, hcolumn, hline, hcolor, hnum]
    split
    · rfl
    · next hsame =>
      have hcount : 13 + _ = args.size.toNat := size_checked h0 hlt hbase hsame
      rw [h.readChars_eq (show _ ≤ args.size.toNat - 4 - 4 - 1 - 4 by omega)]

end Guards

theorem services_guarded (service : Service) : ∀ info ∈ service.infos, Guarded info := by
  cases service <;> simp only [Service.infos, List.forall_mem_cons, List.not_mem_nil, false_implies,
    implies_true, and_true]
  case sysTask =>
    refine ⟨guarded_fixed (by decide) fun _ _ => wrapperShareMemory_same,
      guarded_fixed (by decide) fun args args' h => ?_⟩
    rw [wrapperCreateShareMemory, (h.argRead int (by decide)).1]
    rfl
  case video =>
    refine ⟨guarded_fixed (by decide) fun _ _ => wrapperWriteChar_same,
      guarded_any fun _ _ => wrapperWriteString_same,
      guarded_fixed (by decide) fun _ _ => wrapperCreateFramebuffer_same,
      guarded_fixed (by decide) fun args args' h => ?_⟩
    rw [wrapperSwapFramebuffer, (h.argRead int (by decide)).1]
    rfl
  case tty =>
    refine ⟨guarded_fixed (by decide) fun args args' h => ?_,
      guarded_fixed (by decide) fun _ _ => wrapperPutchar_same,
      guarded_any fun _ _ => wrapperPuts_same, guarded_fixed (by decide) fun args args' h => ?_⟩
    · rw [wrapperFlushConsole, (h.argRead int (by decide)).1]
      rfl
    · rw [wrapperGetchar, (h.argRead int (by decide)).1]
      rfl
  case keyboard => exact guarded_fixed (by decide) fun _ _ _ => rfl
  case keyboardIoman =>
    refine guarded_fixed (by decide) fun args args' h => ?_
    rw [wrapperShareKeybuffer, (h.argRead bool (by decide)).1]
    rfl

/-- Where the message is as long as its header says, a function that keeps to the size comes
to the same on any memory in which those bytes are the same. -/
theorem received_decides {pack : Msgpack} (hguard : ∀ info ∈ infos, Guarded info)
    (hsame : SameBytes n msg msg') (hn : n < 65536) (hacc : Accepted infos msg info)
    (hinside : 16 + (argsSizeOf msg).toNat ≤ n) :
    Accepted infos msg' info ∧ resultOf info pack msg' = resultOf info pack msg := by
  have hfunc : funcOf msg' = funcOf msg := congrArg qword.decode (hsame.load_eq (show 8 ≤ n by omega))
  have hargs : argsSizeOf msg' = argsSizeOf msg :=
    congrArg dword.decode ((hsame.drop (show 8 ≤ n by omega)).load_eq (show 4 ≤ n - 8 by omega))
  have hret : returnSizeOf msg' = returnSizeOf msg :=
    congrArg dword.decode ((hsame.drop (show 12 ≤ n by omega)).load_eq (show 4 ≤ n - 12 by omega))
  have hsize : (argsOf msg).size = ((argsSizeOf msg).toNat : Int) := int20_of_lt (by omega)
  have hsize' : (argsOf msg').size = (argsOf msg).size := by
    rw [argsOf, hargs]
    rfl
  have hbytes : SameBytes (argsOf msg).size.toNat (argsOf msg).data (argsOf msg').data := by
    have hrest := hsame.drop (show 16 ≤ n by omega)
    exact fun i hi => hrest i (by omega)
  have hmem : info ∈ infos := List.mem_of_find?_eq_some hacc.1
  obtain ⟨hfind, hargsOk, hretOk⟩ := hacc
  refine ⟨⟨by rw [hfunc]; exact hfind, by rw [hargs]; exact hargsOk, by rw [hret]; exact hretOk⟩, ?_⟩
  rw [resultOf, hfunc]
  refine hguard info hmem _ _ _ _ (by omega) (by omega) hsize' ?_ hbytes
  rw [hsize]
  exact hargsOk.imp (fun h => by rw [h]) id

end RpcServer

end TayHuang
