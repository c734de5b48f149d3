import TayHuang.RpcServers

/-! The functions that call remotely, and the wrappers that serve them, up to the
arguments: `export/` of libkmod and the drivers. -/

namespace TayHuang

namespace RpcServer

open Marshalling

inductive Service
  | sysTask
  | video
  | tty
  | keyboard
  | keyboardIoman
  deriving DecidableEq, Repr

/-- A call with its arguments; a string is its bytes before the NUL. -/
inductive Call
  | shareMemory (addr : UInt64) (pages target : Int32)
  | createShareMemory (pages : Int32)
  | writeChar (column line : Int32) (color ch : UInt8)
  | writeString (column line : Int32) (color : UInt8) (str : List UInt8)
  | createFramebuffer (column line width height : Int32)
  | swapFramebuffer (id : Int32)
  | flushConsole (consoleNo : Int32)
  | ttyPutchar (consoleNo : Int32) (ch : UInt8)
  | ttyPuts (consoleNo : Int32) (str : List UInt8)
  | ttyGetchar (consoleNo : Int32)
  | getkey
  | shareKeybuffer (flag : Bool)
  deriving DecidableEq, Repr

def Call.service : Call → Service
  | .shareMemory .. | .createShareMemory _ => .sysTask
  | .writeChar .. | .writeString .. | .createFramebuffer .. | .swapFramebuffer _ => .video
  | .flushConsole _ | .ttyPutchar .. | .ttyPuts .. | .ttyGetchar _ => .tty
  | .getkey => .keyboard
  | .shareKeybuffer _ => .keyboardIoman

def Call.funcNo : Call → UInt64
  | .shareMemory .. => 0
  | .createShareMemory _ => 1
  | .writeChar .. => 0
  | .writeString .. => 1
  | .createFramebuffer .. => 2
  | .swapFramebuffer _ => 3
  | .ttyPutchar .. => 0
  | .flushConsole _ => 1
  | .ttyPuts .. => 2
  | .ttyGetchar _ => 3
  | .getkey => 0
  | .shareKeybuffer _ => 0

/-- The size of the return type. -/
def Call.returnSize : Call → UInt32
  | .shareMemory .. | .createShareMemory _ | .shareKeybuffer _ => 8
  | .createFramebuffer .. => 16
  | .getkey => 2
  | _ => 1

/-! ### The callers -/

/-- `MAKE_ARGS`: the pointer has 44 bits. -/
def makeArgs (mem : Nat → UInt8) (data size : Nat) : RpcArgs :=
  ⟨⟨mem, data % 2 ^ 44⟩, int20 size⟩

/-- A pointer that went through a `char`. -/
def throughChar (p : Nat) : Nat := if p % 256 < 128 then p % 256 else 2 ^ 64 - 256 + p % 256

/-- `memcpy` to the pointer. -/
def copyTo (s : Cursor) (bs : List UInt8) : Cursor := ⟨store s.mem s.ptr bs, s.ptr + bs.length⟩

section Stubs

variable (m : Nat → UInt8) (buffer p : Nat)

def shareMemory (addr : UInt64) (pages target : Int32) : RpcArgs :=
  let buf := argWrite qword ⟨m, buffer⟩ addr
  let buf := argWrite int buf pages
  let buf := argWrite int buf target
  makeArgs buf.mem buffer 16

/-- `&pages` is the buffer. -/
def createShareMemory (pages : Int32) : RpcArgs :=
  makeArgs (argWrite int ⟨m, buffer⟩ pages).mem buffer 4

def writeChar (column line : Int32) (color ch : UInt8) : RpcArgs :=
  let buf := argWrite int ⟨m, buffer⟩ column
  let buf := argWrite int buf line
  let buf := argWrite byte buf color
  let buf := argWrite byte buf ch
  makeArgs buf.mem buffer 10

/-- `p` is what `malloc` returns, and what `char buffer` cuts short. -/
def writeString (column line : Int32) (color : UInt8) (str : List UInt8) : RpcArgs :=
  let num := str.length
  let buffer := throughChar p
  let buf := argWrite int ⟨m, buffer⟩ column
  let buf := argWrite int buf line
  let buf := argWrite byte buf color
  let buf := argWrite int buf (.ofNat num)
  let buf := copyTo buf str
  makeArgs buf.mem buffer (num + 13)

def createFramebuffer (column line width height : Int32) : RpcArgs :=
  let buf := argWrite int ⟨m, buffer⟩ column
  let buf := argWrite int buf line
  let buf := argWrite int buf width
  let buf := argWrite int buf height
  makeArgs buf.mem buffer 16

def swapFramebuffer (id : Int32) : RpcArgs :=
  let buf := argWrite bool ⟨m, buffer⟩ (id ≠ 0)
  makeArgs buf.mem buffer 4

def flushConsole (consoleNo : Int32) : RpcArgs :=
  makeArgs (argWrite int ⟨m, buffer⟩ consoleNo).mem buffer 4

def ttyPutchar (consoleNo : Int32) (ch : UInt8) : RpcArgs :=
  let buf := argWrite int ⟨m, buffer⟩ consoleNo
  let buf := argWrite byte buf ch
  makeArgs buf.mem buffer 5

/-- `p` is what `malloc` returns. -/
def ttyPuts (consoleNo : Int32) (str : List UInt8) : RpcArgs :=
  let num := str.length
  let buf := argWrite int ⟨m, p⟩ consoleNo
  let buf := argWrite int buf (.ofNat num)
  let buf := copyTo buf str
  makeArgs buf.mem p (num + 8)

def ttyGetchar (consoleNo : Int32) : RpcArgs :=
  makeArgs (argWrite int ⟨m, buffer⟩ consoleNo).mem buffer 4

def getkey : RpcArgs := makeArgs (argWrite bool ⟨m, buffer⟩ false).mem buffer 1

/-- The pointer that is passed on is `buf`, which is past the argument. -/
def shareKeybuffer (flag : Bool) : RpcArgs :=
  let buf := argWrite bool ⟨m, buffer⟩ flag
  makeArgs buf.mem buf.ptr 1

def Call.args : Call → RpcArgs
  | .shareMemory addr pages target => RpcServer.shareMemory m buffer addr pages target
  | .createShareMemory pages => RpcServer.createShareMemory m buffer pages
  | .writeChar column line color ch => RpcServer.writeChar m buffer column line color ch
  | .writeString column line color str => RpcServer.writeString m p column line color str
  | .createFramebuffer column line width height =>
    RpcServer.createFramebuffer m buffer column line width height
  | .swapFramebuffer id => RpcServer.swapFramebuffer m buffer id
  | .flushConsole consoleNo => RpcServer.flushConsole m buffer consoleNo
  | .ttyPutchar consoleNo ch => RpcServer.ttyPutchar m buffer consoleNo ch
  | .ttyPuts consoleNo str => RpcServer.ttyPuts m p consoleNo str
  | .ttyGetchar consoleNo => RpcServer.ttyGetchar m buffer consoleNo
  | .getkey => RpcServer.getkey m buffer
  | .shareKeybuffer flag => RpcServer.shareKeybuffer m buffer flag

end Stubs

/-- `prepare_params`: the bytes of the request. -/
def prepareParams (func : UInt64) (returnSize : UInt32) (args : RpcArgs) : List UInt8 :=
  qword.encode func ++ (dword.encode (.ofInt args.size) ++ (dword.encode returnSize ++
    load args.data.mem args.data.ptr args.size.toNat))

def Call.request (m : Nat → UInt8) (buffer p : Nat) (c : Call) : List UInt8 :=
  prepareParams c.funcNo c.returnSize (c.args m buffer p)

/-! ### The servers: what the wrappers read -/

def wrapperShareMemory (args : RpcArgs) : Option Call :=
  let addr := argRead qword args.data
  let pages := argRead int addr.2
  let target := argRead int pages.2
  some (.shareMemory addr.1 pages.1 target.1)

def wrapperCreateShareMemory (args : RpcArgs) : Option Call :=
  let pages := argRead int args.data
  some (.createShareMemory pages.1)

def wrapperWriteChar (args : RpcArgs) : Option Call :=
  let column := argRead int args.data
  let line := argRead int column.2
  let color := argRead byte line.2
  let ch := argRead byte color.2
  some (.writeChar column.1 line.1 color.1 ch.1)

/-- The loop over the characters of a string. -/
def readChars : Nat → Cursor → List UInt8
  | 0, _ => []
  | n + 1, data =>
    let ch := argRead byte data
    ch.1 :: readChars n ch.2

/-- Sizes are compared as `size_t`. -/
def sizeT (x : Int) : Int := x % 2 ^ 64

/-- `none` where it answers `false` for a size that does not match. -/
def wrapperWriteString (args : RpcArgs) : Option Call :=
  if sizeT args.size < 13 then none
  else
    let column := argRead int args.data
    let line := argRead int column.2
    let color := argRead byte line.2
    let num := argRead int color.2
    if sizeT args.size ≠ sizeT (13 + num.1.toInt) then none
    else some (.writeString column.1 line.1 color.1 (readChars num.1.toInt.toNat num.2))

def wrapperCreateFramebuffer (args : RpcArgs) : Option Call :=
  let column := argRead int args.data
  let line := argRead int column.2
  let width := argRead int line.2
  let height := argRead int width.2
  some (.createFramebuffer column.1 line.1 width.1 height.1)

def wrapperSwapFramebuffer (args : RpcArgs) : Option Call :=
  let id := argRead int args.data
  some (.swapFramebuffer id.1)

def wrapperFlushConsole (args : RpcArgs) : Option Call :=
  let consoleNo := argRead int args.data
  some (.flushConsole consoleNo.1)

def wrapperPutchar (args : RpcArgs) : Option Call :=
  let consoleNo := argRead int args.data
  let ch := argRead byte consoleNo.2
  some (.ttyPutchar consoleNo.1 ch.1)

/-- `none` where it answers `false`. -/
def wrapperPuts (args : RpcArgs) : Option Call :=
  if sizeT args.size < 8 then none
  else
    let consoleNo := argRead int args.data
    let num := argRead int consoleNo.2
    if sizeT args.size ≠ sizeT (8 + num.1.toInt) then none
    else some (.ttyPuts consoleNo.1 (readChars num.1.toInt.toNat num.2))

def wrapperGetchar (args : RpcArgs) : Option Call :=
  let consoleNo := argRead int args.data
  some (.ttyGetchar consoleNo.1)

def wrapperGetkey (_ : RpcArgs) : Option Call := some .getkey

def wrapperShareKeybuffer (args : RpcArgs) : Option Call :=
  let flag := argRead bool args.data
  some (.shareKeybuffer flag.1)

/-- `rpc_register`. -/
def registered (funcNo : UInt64) (wrapper : RpcArgs → Option Call) (returnSize argsSize : UInt32) :
    ProccessInfo (Option Call) :=
  ⟨funcNo, fun _ _ args => wrapper args, returnSize, argsSize⟩

/-- What the services register. -/
def Service.infos : Service → List (ProccessInfo (Option Call))
  | .sysTask => [registered 0 wrapperShareMemory 8 16, registered 1 wrapperCreateShareMemory 8 4]
  | .video => [registered 0 wrapperWriteChar 1 10, registered 1 wrapperWriteString 1 anySize,
      registered 2 wrapperCreateFramebuffer 16 16, registered 3 wrapperSwapFramebuffer 1 4]
  | .tty => [registered 1 wrapperFlushConsole 1 4, registered 0 wrapperPutchar 1 5,
      registered 2 wrapperPuts 1 anySize, registered 3 wrapperGetchar 1 4]
  | .keyboard => [registered 0 wrapperGetkey 2 1]
  | .keyboardIoman => [registered 0 wrapperShareKeybuffer 8 1]

/-- The function that a request gets to, and the call that its wrapper reads. -/
def servedCall (service : Service) (source : Int) (msg : Cursor) : Except RpcError (Option Call) :=
  match checkRequest service.infos msg with
  | .error e => .error e
  | .ok (info, funcNo, args) => .ok (info.proccess source funcNo args)

end RpcServer

end TayHuang
