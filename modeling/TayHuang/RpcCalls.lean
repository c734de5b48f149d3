import TayHuang.Blocks
import TayHuang.Mailbox
import TayHuang.RpcRegistry
import TayHuang.RpcStubs

/-! Remote calls by the threads of one task, rpc.c of libkmod. A thread gives the
processor away only where `__rpc_call` waits for its signal. -/

namespace TayHuang

open Function (update)
open LinkedCells Fuel Runs Blocks LittleEndian Marshalling

/-- The frame of a `__rpc_call` that waits, and the answer that has been sent to it. -/
structure Call where
  func : UInt64
  returnSize : Nat
  result : Nat
  params : Nat
  id : Nat
  signal : Nat
  returnData : Nat
  woken : Bool
  answer : Option (List UInt8)
  deriving DecidableEq, Repr

/-- `result` and `resultSz` are the statics of `rpc_call`; `removing` is the id that
`message_loop` is about to remove. -/
structure Client (ι : Type) where
  result : Option Nat
  resultSz : Nat
  reg : Reg
  msgidCounter : Nat
  signals : Nat
  store : Store UInt8
  calls : ι → Option Call
  removing : Option Nat

section Model

variable {ι : Type} [DecidableEq ι]

/-- What `malloc` leaves in a new block. -/
def blank (junk : Nat → Nat → UInt8) (b size : Nat) : List UInt8 := (List.range size).map (junk b)

def prepareParams (func : UInt64) (returnSize : Nat) (args : List UInt8) : List UInt8 :=
  toBytes 8 func.toNat ++ toBytes 4 args.length ++ toBytes 4 returnSize ++ args

/-- The static buffer of `rpc_call`, before `__rpc_call`. -/
def sizeResult (junk : Nat → Nat → UInt8) (s : Client ι) (returnSize : Nat) : Client ι :=
  match s.result with
  | none =>
    { s with
      result := some s.store.next
      resultSz := returnSize
      store := s.store.alloc (blank junk s.store.next returnSize) }
  | some result =>
    if s.resultSz < returnSize then
      { s with
        result := some s.store.next
        resultSz := returnSize
        store := (s.store.free result).alloc (blank junk s.store.next returnSize) }
    else s

/-- `__rpc_call` up to `down_signal`. -/
def sendCall (junk : Nat → Nat → UInt8) (fuel : Nat) (s : Client ι) (t : ι) (func : UInt64)
    (args : List UInt8) (returnSize result signal new : Nat) : Option (Client ι) :=
  let params := s.store.next
  let store := s.store.alloc (prepareParams func returnSize args)
  let returnData := store.next
  let id := (getMsgid s.msgidCounter).1
  (setRpcResult fuel new s.reg id signal returnData).map fun reg =>
    { s with
      reg := reg
      msgidCounter := (getMsgid s.msgidCounter).2
      signals := signal + 1
      store := store.alloc (blank junk returnData (8 + returnSize))
      calls := update s.calls t
        (some ⟨func, returnSize, result, params, id, signal, returnData, false, none⟩) }

/-- `rpc_call` until it waits. -/
def rpcCall (junk : Nat → Nat → UInt8) (fuel : Nat) (s : Client ι) (t : ι) (func : UInt64)
    (args : List UInt8) (returnSize signal new : Nat) : Option (Client ι) :=
  let s := sizeResult junk s returnSize
  match s.result with
  | none => none
  | some result => sendCall junk fuel s t func args returnSize result signal new

/-- `up_signal` for signals with one waiter. -/
def wake (calls : ι → Option Call) (signal : Nat) : ι → Option Call :=
  fun u => (calls u).map fun c => if c.signal = signal then { c with woken := true } else c

def answered (calls : ι → Option Call) (t : ι) (msg : List UInt8) : ι → Option Call :=
  update calls t ((calls t).map fun c => { c with answer := some msg })

/-- The case `MSG_RPC_RESULT` of `message_loop`, before the removal. -/
def handleResult (fuel : Nat) (s : Client ι) (id : Nat) (msg : List UInt8) : Option (Client ι) :=
  (getSignal fuel s.reg id).map fun found =>
    match found with
    | none => s
    | some p =>
      { s with
        store := s.store.write (s.reg.node p).data msg
        calls := wake s.calls (s.reg.node p).signal
        removing := some id }

/-- `__rpc_call` and `rpc_call` from the wake-up on. -/
def finishCall (s : Client ι) (t : ι) (c : Call) : Client ι × Option Nat :=
  let store :=
    match s.store.heap c.returnData with
    | none => s.store.misuse
    | some bytes =>
      if ofBytes (bytes.take 8) = c.func.toNat then
        s.store.write c.result ((bytes.drop 8).take c.returnSize)
      else s.store
  ({ s with store := (store.free c.returnData).free c.params, calls := update s.calls t none },
    s.result)

/-- `signal` is the id that the kernel hands out, `new` where the registry's entry goes. -/
inductive RpcEvent (ι : Type)
  | call (t : ι) (func : UInt64) (args : List UInt8) (returnSize signal new : Nat)
  | answer (t : ι) (msg : List UInt8)
  | remove
  | ret (t : ι)

/-- Signal ids only grow; one answer comes for a call, and the message loop takes it
when it is done with the one before. -/
def rpcStep (junk : Nat → Nat → UInt8) (fuel : Nat) (s : Client ι) :
    RpcEvent ι → Option (Client ι)
  | .call t func args returnSize signal new =>
    if s.calls t = none ∧ s.signals ≤ signal then
      rpcCall junk fuel s t func args returnSize signal new
    else none
  | .answer t msg =>
    match s.calls t, s.removing with
    | some c, none =>
      if c.answer = none then
        (handleResult fuel s c.id msg).map fun s => { s with calls := answered s.calls t msg }
      else none
    | _, _ => none
  | .remove =>
    match s.removing with
    | none => none
    | some id =>
      (removeRpcResult fuel s.reg id).map fun reg => { s with reg := reg, removing := none }
  | .ret t =>
    match s.calls t with
    | none => none
    | some c => if c.woken then some (finishCall s t c).1 else none

def RpcStep (junk : Nat → Nat → UInt8) (s : Client ι) (e : RpcEvent ι) (s' : Client ι) : Prop :=
  ∃ fuel, rpcStep junk fuel s e = some s'

def rpcBoot (s : Client ι) : Prop :=
  s.result = none ∧ s.resultSz = 0 ∧ s.reg.head = none ∧ s.store.misused = false ∧
    (∀ t, s.calls t = none) ∧ s.removing = none

/-- What a server that keeps to `__deal_rpc_request__` sends for this function and size. -/
def AnswerTo (func : UInt64) (returnSize : Nat) (msg payload : List UInt8) : Prop :=
  msg = toBytes 8 func.toNat ++ payload ∧ payload.length = returnSize

/-- No outstanding call has the buffer that is freed, and the id of the new call is
not in the registry, or alone there and not in use. -/
def RpcFits (s : Client ι) : RpcEvent ι → Prop
  | .call _ _ _ returnSize _ new =>
    (s.resultSz < returnSize → ∀ u, s.calls u = none) ∧
      ∃ l, RegList s.reg l ∧ new ∉ l.map Entry.addr ∧
        ((getMsgid s.msgidCounter).1 ∉ ids l ∨ ids l = [(getMsgid s.msgidCounter).1] ∧
          ∀ u c, s.calls u = some c → c.id ≠ (getMsgid s.msgidCounter).1)
  | .answer t msg => ∀ c, s.calls t = some c → ∃ payload, AnswerTo c.func c.returnSize msg payload
  | .remove => True
  | .ret _ => True

end Model

/-! ### The servers -/

/-- The bytes of a request, as the servers read them. -/
theorem prepareParams_encode {func : UInt64} {returnSize : UInt32} {args : List UInt8}
    (hlen : args.length < 2 ^ 32) : prepareParams func returnSize.toNat args =
      qword.encode func ++ (dword.encode (.ofNat args.length) ++ (dword.encode returnSize ++ args)) := by
  have hargs : (UInt32.ofNat args.length).toNat = args.length := by
    rw [UInt32.toNat_ofNat', Nat.mod_eq_of_lt hlen]
  simp only [prepareParams, qword, dword, hargs, List.append_assoc]

/-- The stubs hand `prepare_params` their arguments by address. -/
theorem prepareParams_load {func : UInt64} {returnSize : UInt32} {args : RpcServer.RpcArgs}
    (h : 0 ≤ args.size ∧ args.size < 2 ^ 32) : RpcServer.prepareParams func returnSize args =
      prepareParams func returnSize.toNat (load args.data.mem args.data.ptr args.size.toNat) := by
  have hsize : UInt32.ofInt args.size = .ofNat args.size.toNat := by
    refine UInt32.toNat_inj.mp ?_
    rw [UInt32.toNat_ofNat', UInt32.ofInt, UInt32.toNat_ofNat']
    omega
  have hlen : (load args.data.mem args.data.ptr args.size.toNat).length = args.size.toNat :=
    length_load ..
  rw [prepareParams_encode (by omega), RpcServer.prepareParams, hsize, hlen]

/-- An answer of a function with a fixed size has the size that the caller asked for. -/
theorem handleRequest_answer {infos : List (RpcServer.ProccessInfo RpcServer.RpcResult)}
    {pack : Msgpack} {msg : Cursor} {x : RpcServer.Sending} {func : UInt64} {returnSize : UInt32}
    {args : List UInt8} (hfixed : ∀ info ∈ infos, info.returnSize ≠ RpcServer.anySize)
    (hlen : args.length < 2 ^ 32) (hmsg : msg.Holds (prepareParams func returnSize.toNat args))
    (h : RpcServer.handleRequest infos pack msg = .ok x) :
    ∃ payload, AnswerTo func returnSize.toNat x.msg payload := by
  obtain ⟨info, ⟨⟨hfind, -, hret⟩, hresult⟩, rfl⟩ := RpcServer.handleRequest_ok_iff.mp h
  rw [prepareParams_encode hlen] at hmsg
  obtain ⟨hfunc, -, hsize, -⟩ := RpcServer.header_holds hmsg
  have hne := hfixed info (List.mem_of_find?_eq_some hfind)
  have hfits := (RpcServer.resultOf info pack msg).fits
  rw [hsize, or_iff_left hne] at hret
  rw [or_iff_left hne, ← hret] at hresult
  refine ⟨(RpcServer.resultOf info pack msg).bytes, ?_, ?_⟩
  · rw [RpcServer.answerTo, hfunc]
    rfl
  · rw [hresult, UInt32.toNat_ofNat']
    omega

end TayHuang
