import TayHuang.MailboxRuns
import TayHuang.Marshalling

/-! The two servers of remote calls, `deal_rpc_request` of libkmod and of `sys_task`. -/

namespace TayHuang

namespace RpcServer

open LittleEndian
open Marshalling

inductive Server
  | module
  | sysTask
  deriving DecidableEq, Repr

/-- The 20 bits of `size` in `rpc_args_struct`. -/
def int20 (x : Int) : Int := (x + 524288) % 1048576 - 524288

structure RpcArgs where
  data : Cursor
  size : Int

/-- What a function returns: bytes whose number fits into the 20 bits. -/
structure RpcResult where
  bytes : List UInt8
  fits : bytes.length < 524288

/-- `proccess_info`; the wrapper makes a `ρ` of its arguments. -/
structure ProccessInfo (ρ : Type) where
  funcNo : UInt64
  proccess : Int → UInt64 → RpcArgs → ρ
  returnSize : UInt32
  argsSize : UInt32

/-- The size `-1` of a function that takes or returns any size. -/
def anySize : UInt32 := 4294967295

inductive RpcError
  | function (funcNo : UInt64)
  | argsSize (got want : UInt32)
  | returnSize (got want : UInt32)
  | result (got want : UInt32)
  deriving DecidableEq, Repr

/-- The format of the message that is logged, and its arguments. -/
def RpcError.message : RpcError → String × List Nat
  | function funcNo => ("Invalid rpc request: invalid function no %d", [funcNo.toNat])
  | argsSize got want =>
    ("Invalid rpc request: invalid args size %d, should be %d", [got.toNat, want.toNat])
  | returnSize got want =>
    ("Invalid rpc request: invalid return size %d, should be %d", [got.toNat, want.toNat])
  | result got want => ("RPC: Return size not match!Get %d, Expect %d", [got.toNat, want.toNat])

/-- A call of `send_msg`. -/
structure Sending where
  msgno : MsgnoId
  msg : List UInt8
  dst : Int

def msgRpcResult : UInt8 := 2

variable {ρ : Type}

def listFindProccess (infos : List (ProccessInfo ρ)) (funcNo : UInt64) : Option (ProccessInfo ρ) :=
  infos.find? fun info => info.funcNo = funcNo

/-- The checks of the header, before the function is called. -/
def checkRequest (infos : List (ProccessInfo ρ)) (msg : Cursor) :
    Except RpcError (ProccessInfo ρ × UInt64 × RpcArgs) :=
  let funcNo := argRead qword msg
  match listFindProccess infos funcNo.1 with
  | none => .error (.function funcNo.1)
  | some info =>
    let argsSize := argRead dword funcNo.2
    if argsSize.1 ≠ info.argsSize ∧ info.argsSize ≠ anySize then
      .error (.argsSize argsSize.1 info.argsSize)
    else
      let returnSize := argRead dword argsSize.2
      if returnSize.1 ≠ info.returnSize ∧ info.returnSize ≠ anySize then
        .error (.returnSize returnSize.1 info.returnSize)
      else .ok (info, funcNo.1, ⟨returnSize.2, int20 argsSize.1.toNat⟩)

/-- Up to `send_msg`; both servers do the same. -/
def handleRequest (infos : List (ProccessInfo RpcResult)) (pack : Msgpack) (msg : Cursor) :
    Except RpcError Sending :=
  match checkRequest infos msg with
  | .error e => .error e
  | .ok (info, funcNo, args) =>
    let result := info.proccess pack.source.toNat funcNo args
    if info.returnSize = .ofNat result.bytes.length ∨ info.returnSize = anySize then
      .ok ⟨⟨msgRpcResult, pack.msgId⟩, qword.encode funcNo ++ result.bytes, pack.source.toNat⟩
    else .error (.result (.ofNat result.bytes.length) info.returnSize)

/-- The copy of the message that the thread of a request gets; `junk` is what `malloc`
leaves behind it. -/
def copied (junk : Nat → UInt8) (pack : Msgpack) (msg : Cursor) : Cursor :=
  ⟨fun i => if i < pack.length.toNat then msg.mem (msg.ptr + i) else junk i, 0⟩

def request (server : Server) (junk : Nat → UInt8) (pack : Msgpack) (msg : Cursor) : Cursor :=
  match server with
  | .module => copied junk pack msg
  | .sysTask => msg

/-- The bytes of the answer are in the memory of the server. -/
def withBytes (k : Kernel) (a : Nat) (bs : List UInt8) : Kernel :=
  { k with mem := (pushBytes (k.pa k.currentTask) (fun v => (v + 1) % 2 ^ 64) bs (k.mem, a)).1 }

/-- What a request leads to: the messages that the kernel took, and what was logged. -/
structure Served where
  kernel : Kernel
  sent : List Sending
  log : List RpcError

/-- `send_msg` at the end. `none` where `sys_task` stays in `assert` for ever. -/
def reply (server : Server) (k : Kernel) (reserved : UInt8) (src : Nat) (x : Sending) :
    Option Served :=
  ((withBytes k src x.msg).__sendMsg x.msgno reserved src x.msg.length x.dst).bind fun r =>
    if r.2 then some ⟨r.1, [x], []⟩
    else
      match server with
      | .module => some ⟨r.1, [], []⟩
      | .sysTask => none

/-- `deal_rpc_request`, in a module up to the end of the request's thread; `k` is the
kernel when the server gets to `send_msg`, and `src` where the answer is. -/
def dealRpcRequest (server : Server) (infos : List (ProccessInfo RpcResult)) (k : Kernel)
    (pack : Msgpack) (msg : Cursor) (junk : Nat → UInt8) (reserved : UInt8) (src : Nat) :
    Option Served :=
  match handleRequest infos pack (request server junk pack msg) with
  | .error e => some ⟨k, [], [e]⟩
  | .ok x => reply server k reserved src x

section Header

variable (msg : Cursor)

def funcOf : UInt64 := qword.decode (load msg.mem msg.ptr 8)

def argsSizeOf : UInt32 := dword.decode (load msg.mem (msg.ptr + 8) 4)

def returnSizeOf : UInt32 := dword.decode (load msg.mem (msg.ptr + 12) 4)

def argsOf : RpcArgs := ⟨⟨msg.mem, msg.ptr + 16⟩, int20 (argsSizeOf msg).toNat⟩

variable {msg} {bs : List UInt8}

theorem funcOf_holds {funcNo : UInt64} (h : msg.Holds (qword.encode funcNo ++ bs)) :
    funcOf msg = funcNo := decode_holds h

theorem header_holds {funcNo : UInt64} {argsSize returnSize : UInt32}
    (h : msg.Holds (qword.encode funcNo ++ (dword.encode argsSize ++ (dword.encode returnSize ++ bs)))) :
    funcOf msg = funcNo ∧ argsSizeOf msg = argsSize ∧ returnSizeOf msg = returnSize ∧
      Cursor.Holds ⟨msg.mem, msg.ptr + 16⟩ bs := by
  have h1 := (argRead_holds h).2
  have h2 := (argRead_holds h1).2
  have h3 := (argRead_holds h2).2
  exact ⟨funcOf_holds h, decode_holds h1, decode_holds h2, h3⟩

end Header

/-- The function is registered, with the sizes of the request. -/
def Accepted (infos : List (ProccessInfo ρ)) (msg : Cursor) (info : ProccessInfo ρ) : Prop :=
  listFindProccess infos (funcOf msg) = some info ∧
    (argsSizeOf msg = info.argsSize ∨ info.argsSize = anySize) ∧
    (returnSizeOf msg = info.returnSize ∨ info.returnSize = anySize)

/-- What the function returns for the request. -/
def resultOf (info : ProccessInfo ρ) (pack : Msgpack) (msg : Cursor) : ρ :=
  info.proccess pack.source.toNat (funcOf msg) (argsOf msg)

/-- The kernel takes a message of the size from the current task. -/
def Takes (k : Kernel) (size : Nat) (dst : Int) : Prop :=
  ∃ p, k.getTaskByPid dst = some p ∧ Kernel.HasRoom (k.ipc p) size ∧
    ((k.ipc p).allowPid = (k.task k.currentTask).pid ∨ (k.ipc p).allowPid = -1) ∧
    (k.ipc p).msgHandlerThread ≠ none

variable {infos : List (ProccessInfo ρ)} {info : ProccessInfo ρ} {pack : Msgpack} {msg : Cursor}
  {k : Kernel} {server : Server} {reserved : UInt8} {src : Nat}

theorem checkRequest_ok_iff {funcNo : UInt64} {args : RpcArgs} :
    checkRequest infos msg = .ok (info, funcNo, args) ↔
      Accepted infos msg info ∧ funcNo = funcOf msg ∧ args = argsOf msg := by
  have hcheck : checkRequest infos msg =
      match listFindProccess infos (funcOf msg) with
      | none => .error (.function (funcOf msg))
      | some info =>
        if argsSizeOf msg ≠ info.argsSize ∧ info.argsSize ≠ anySize then
          .error (.argsSize (argsSizeOf msg) info.argsSize)
        else if returnSizeOf msg ≠ info.returnSize ∧ info.returnSize ≠ anySize then
          .error (.returnSize (returnSizeOf msg) info.returnSize)
        else .ok (info, funcOf msg, argsOf msg) := rfl
  rw [hcheck, Accepted]
  cases hfind : listFindProccess infos (funcOf msg) with
  | none => simp
  | some found =>
    by_cases hargs : argsSizeOf msg ≠ found.argsSize ∧ found.argsSize ≠ anySize
    · simp only [if_pos hargs]
      refine ⟨fun h => (nomatch h), ?_⟩
      rintro ⟨⟨he, h, -⟩, -⟩
      obtain rfl := Option.some.inj he
      exact absurd h (not_or.mpr hargs)
    · by_cases hret : returnSizeOf msg ≠ found.returnSize ∧ found.returnSize ≠ anySize
      · simp only [if_neg hargs, if_pos hret]
        refine ⟨fun h => (nomatch h), ?_⟩
        rintro ⟨⟨he, -, h⟩, -⟩
        obtain rfl := Option.some.inj he
        exact absurd h (not_or.mpr hret)
      · simp only [if_neg hargs, if_neg hret, Except.ok.injEq, Prod.mk.injEq]
        constructor
        · rintro ⟨rfl, rfl, rfl⟩
          rw [not_and_or, not_not, not_not] at hargs hret
          exact ⟨⟨rfl, hargs, hret⟩, rfl, rfl⟩
        · rintro ⟨⟨he, -⟩, rfl, rfl⟩
          exact ⟨Option.some.inj he, rfl, rfl⟩

/-- What the answer has to be. -/
def answerTo (info : ProccessInfo RpcResult) (pack : Msgpack) (msg : Cursor) : Sending :=
  ⟨⟨msgRpcResult, pack.msgId⟩, qword.encode (funcOf msg) ++ (resultOf info pack msg).bytes,
    pack.source.toNat⟩

/-- The request is accepted, and the function keeps to its size. -/
def Answerable (infos : List (ProccessInfo RpcResult)) (pack : Msgpack) (msg : Cursor)
    (info : ProccessInfo RpcResult) : Prop :=
  Accepted infos msg info ∧ (info.returnSize = .ofNat (resultOf info pack msg).bytes.length ∨
    info.returnSize = anySize)

section Answers

variable {infos : List (ProccessInfo RpcResult)} {x : Sending}

theorem handleRequest_ok_iff : handleRequest infos pack msg = .ok x ↔
    ∃ info, Answerable infos pack msg info ∧ x = answerTo info pack msg := by
  cases hcheck : checkRequest infos msg with
  | error e =>
    have hnone : ∀ info, ¬ Accepted infos msg info := by
      intro info ha
      have hok := checkRequest_ok_iff.mpr ⟨ha, rfl, rfl⟩
      rw [hcheck] at hok
      exact nomatch hok
    simp only [handleRequest, hcheck]
    refine ⟨fun h => (nomatch h), ?_⟩
    rintro ⟨info, ⟨ha, -⟩, -⟩
    exact absurd ha (hnone info)
  | ok r =>
    obtain ⟨found, funcNo, args⟩ := r
    obtain ⟨ha, rfl, rfl⟩ := checkRequest_ok_iff.mp hcheck
    have hfound : ∀ info, Accepted infos msg info → info = found := fun info hi =>
      Option.some.inj (hi.1.symm.trans ha.1)
    simp only [handleRequest, hcheck]
    change (if found.returnSize = .ofNat (resultOf found pack msg).bytes.length ∨
      found.returnSize = anySize then Except.ok (answerTo found pack msg) else _) = _ ↔ _
    split
    · next hsize =>
      constructor
      · intro h
        exact ⟨found, ⟨ha, hsize⟩, (Except.ok.inj h).symm⟩
      · rintro ⟨info, ⟨hi, -⟩, rfl⟩
        rw [hfound info hi]
    · next hsize =>
      refine ⟨fun h => (nomatch h), ?_⟩
      rintro ⟨info, ⟨hi, hs⟩, -⟩
      obtain rfl := hfound info hi
      exact absurd hs hsize

theorem sendMsg_takes (msgno : MsgnoId) (reserved : UInt8) (src : Nat) {size : Nat} {dst : Int} :
    (∃ k', k.__sendMsg msgno reserved src size dst = some (k', true)) ↔ Takes k size dst := by
  constructor
  · rintro ⟨k', h⟩
    rcases Kernel.sendMsg_cases h with ⟨hb, -⟩ | ⟨-, p, hp, hroom, hallow, hd⟩
    · exact absurd hb (by decide)
    · refine ⟨p, hp, hroom, hallow, fun hnone => ?_⟩
      rw [Kernel.deliver, hnone] at hd
      exact nomatch hd
  · rintro ⟨p, hp, hroom, hallow, hhandler⟩
    have hno : ¬ ((k.ipc p).mailSize < ((k.ipc p).usedSize + size + 8) % 2 ^ 64 ∨
        (k.ipc p).allowPid ≠ (k.task k.currentTask).pid ∧ (k.ipc p).allowPid ≠ -1) := by
      rw [not_or, not_and_or, not_not, not_not]
      exact ⟨Nat.not_lt.mpr hroom, hallow⟩
    simp only [Kernel.__sendMsg, hp, if_neg hno]
    obtain ⟨k', hk'⟩ : ∃ k', k.deliver p (Kernel.header msgno reserved size
        (k.task k.currentTask).pid) (k.pa k.currentTask) src size ((k.ipc p).allowPid ≠ -2) =
        some k' := Kernel.deliver_isSome hhandler
    exact ⟨k', Option.map_eq_some_iff.mpr ⟨k', hk', rfl⟩⟩

theorem reply_sent_iff : (∃ r, reply server k reserved src x = some r ∧ r.sent = [x]) ↔
    Takes k x.msg.length x.dst := by
  have htakes : Takes (withBytes k src x.msg) x.msg.length x.dst ↔ Takes k x.msg.length x.dst :=
    Iff.rfl
  rw [← htakes, ← sendMsg_takes x.msgno reserved src]
  constructor
  · rintro ⟨r, hr, hsent⟩
    obtain ⟨⟨k', b⟩, hsend, hr⟩ := Option.bind_eq_some_iff.mp hr
    cases b with
    | true => exact ⟨k', hsend⟩
    | false =>
      cases server with
      | module =>
        obtain rfl := Option.some.inj hr
        exact absurd hsent (by simp)
      | sysTask => exact nomatch hr
  · rintro ⟨k', hsend⟩
    exact ⟨⟨k', [x], []⟩, by rw [reply, hsend]; rfl, rfl⟩

theorem reply_sent {r : Served} (h : reply server k reserved src x = some r) :
    r.sent = [x] ∨ r.sent = [] := by
  obtain ⟨⟨k', b⟩, -, hr⟩ := Option.bind_eq_some_iff.mp h
  cases b with
  | true =>
    obtain rfl := Option.some.inj hr
    exact .inl rfl
  | false =>
    cases server with
    | module =>
      obtain rfl := Option.some.inj hr
      exact .inr rfl
    | sysTask => exact nomatch hr

end Answers

variable {infos : List (ProccessInfo RpcResult)} {junk : Nat → UInt8}

/-- A request that is refused is logged and leaves the kernel alone. -/
theorem dealRpcRequest_refused
    (h : ∀ info, ¬ Answerable infos pack (request server junk pack msg) info) :
    ∃ e, dealRpcRequest server infos k pack msg junk reserved src = some ⟨k, [], [e]⟩ := by
  cases hreq : handleRequest infos pack (request server junk pack msg) with
  | error e => exact ⟨e, by rw [dealRpcRequest, hreq]⟩
  | ok x =>
    obtain ⟨info, hi, -⟩ := handleRequest_ok_iff.mp hreq
    exact absurd hi (h info)

/-- A request is answered, and once, exactly when its function is registered with its
sizes and keeps to them, and the kernel takes the answer. -/
theorem rpc_answered_iff : (∃ r x, dealRpcRequest server infos k pack msg junk reserved src = some r ∧
      r.sent = [x] ∧ x.msgno = ⟨msgRpcResult, pack.msgId⟩ ∧ x.dst = pack.source.toNat) ↔
    ∃ info, Answerable infos pack (request server junk pack msg) info ∧
      Takes k (8 + (resultOf info pack (request server junk pack msg)).bytes.length)
        pack.source.toNat := by
  have hlen : ∀ info, (answerTo info pack (request server junk pack msg)).msg.length =
      8 + (resultOf info pack (request server junk pack msg)).bytes.length := by
    intro info
    simp only [answerTo, List.length_append, qword.length_encode]
    rfl
  constructor
  · rintro ⟨r, x, hr, hsent, -⟩
    cases hreq : handleRequest infos pack (request server junk pack msg) with
    | error e =>
      rw [dealRpcRequest, hreq] at hr
      obtain rfl := Option.some.inj hr
      exact absurd hsent (by simp)
    | ok y =>
      rw [dealRpcRequest, hreq] at hr
      obtain ⟨info, hi, rfl⟩ := handleRequest_ok_iff.mp hreq
      refine ⟨info, hi, hlen info ▸ reply_sent_iff.mp ⟨r, hr, ?_⟩⟩
      rcases reply_sent hr with h | h
      · exact h
      · exact absurd (hsent.symm.trans h) (by simp)
  · rintro ⟨info, hi, htakes⟩
    obtain ⟨r, hr, hsent⟩ := (reply_sent_iff (x := answerTo info pack
      (request server junk pack msg))).mpr (by rw [hlen]; exact htakes)
    refine ⟨r, _, ?_, hsent, rfl, rfl⟩
    rw [dealRpcRequest, handleRequest_ok_iff.mpr ⟨info, hi, rfl⟩]
    exact hr

theorem request_holds {bs : List UInt8} (h : msg.Holds bs) (hlen : bs.length ≤ pack.length.toNat) :
    (request server junk pack msg).Holds bs := by
  cases server with
  | sysTask => exact h
  | module =>
    refine Eq.trans (load_congr fun i hi => ?_) h
    simp only [request, copied, Nat.zero_add, if_pos (Nat.lt_of_lt_of_le hi hlen)]

theorem not_answerable {funcNo : UInt64} {bs : List UInt8} (h : msg.Holds (qword.encode funcNo ++ bs))
    (hlen : (qword.encode funcNo ++ bs).length ≤ pack.length.toNat)
    (hnone : listFindProccess infos funcNo = none) (info : ProccessInfo RpcResult) :
    ¬ Answerable infos pack (request server junk pack msg) info := by
  rintro ⟨⟨hfind, -⟩, -⟩
  have hfunc : funcOf (request server junk pack msg) = funcNo := funcOf_holds (request_holds h hlen)
  rw [hfunc, hnone] at hfind
  exact nomatch hfind

/-- A module that has the function 0 is asked for the function 9. -/
theorem rpc_unregistered_unanswered :
    let k := (mailAt 28672 64).kernel
    let infos : List (ProccessInfo RpcResult) := [⟨0, fun _ _ _ => ⟨[], by decide⟩, 0, 0⟩]
    let msg : Cursor :=
      ⟨store (fun _ => 0) 0 (qword.encode 9 ++ (dword.encode 0 ++ dword.encode 0)), 0⟩
    Takes k 8 7 ∧ ¬ ∃ r x,
      dealRpcRequest .module infos k ⟨0, 1, 5, 16, 7⟩ msg (fun _ => 0) 0 24576 = some r ∧
        r.sent = [x] ∧ x.msgno = ⟨msgRpcResult, 5⟩ ∧ x.dst = 7 := by
  intro k infos msg
  have hroom : Kernel.HasRoom ((mailAt 28672 64).kernel.ipc 0) 8 := by
    unfold Kernel.HasRoom
    decide
  refine ⟨⟨0, rfl, hroom, .inr rfl, by decide⟩, ?_⟩
  rintro ⟨r, x, hr, hsent, -⟩
  have hlen : (qword.encode 9 ++ (dword.encode 0 ++ dword.encode 0)).length ≤ 16 := by decide
  obtain ⟨e, he⟩ : ∃ e, dealRpcRequest .module infos k ⟨0, 1, 5, 16, 7⟩ msg (fun _ => 0) 0 24576 =
      some ⟨k, [], [e]⟩ :=
    dealRpcRequest_refused (not_answerable (holds_store _ 0 _) hlen rfl)
  rw [he] at hr
  obtain rfl := Option.some.inj hr
  exact absurd hsent (by simp)

end RpcServer

end TayHuang
