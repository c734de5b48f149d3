import TayHuang.RpcStubs

/-! What a call writes is what its wrapper reads, but for three of the calls. -/

namespace TayHuang

namespace RpcServer

open Marshalling

variable {m : Nat → UInt8} {buffer p size a : Nat} {data : Cursor} {msg : Cursor} {bs cs : List UInt8}
  {source : Int}

theorem int20_of_lt {n : Nat} (h : n < 524288) : int20 n = n := by
  rw [int20]
  omega

@[simp] theorem copyTo_written : copyTo (written m a bs) cs = written m a (bs ++ cs) := by
  simp only [copyTo, written, store_append, List.length_append, Nat.add_assoc]

theorem load_written (m : Nat → UInt8) (a : Nat) (bs : List UInt8) :
    load (written m a bs).mem a bs.length = bs := load_store m a bs

/-- The checks let the request through, and the wrapper gets the argument bytes. -/
theorem servedCall_holds {service : Service} {funcNo : UInt64} {returnSize argsSize : UInt32}
    {info : ProccessInfo (Option Call)}
    (h : msg.Holds (qword.encode funcNo ++ (dword.encode argsSize ++ (dword.encode returnSize ++ bs))))
    (hfind : listFindProccess service.infos funcNo = some info)
    (hargs : argsSize = info.argsSize ∨ info.argsSize = anySize)
    (hret : returnSize = info.returnSize ∨ info.returnSize = anySize) :
    ∃ data, data.Holds bs ∧ servedCall service source msg =
      .ok (info.proccess source funcNo ⟨data, int20 argsSize.toNat⟩) := by
  obtain ⟨hfuncOf, hsizeOf, hretOf, hbytes⟩ := header_holds h
  have hcheck : checkRequest service.infos msg = .ok (info, funcNo, argsOf msg) :=
    checkRequest_ok_iff.mpr ⟨⟨hfuncOf ▸ hfind, hsizeOf ▸ hargs, hretOf ▸ hret⟩, hfuncOf.symm, rfl⟩
  refine ⟨_, hbytes, ?_⟩
  rw [servedCall, hcheck, argsOf, hsizeOf]

/-- The request of arguments in a buffer of `size` bytes. -/
theorem servedCall_makeArgs {service : Service} {funcNo : UInt64} {returnSize : UInt32}
    {info : ProccessInfo (Option Call)} (hsize : size < 524288)
    (h : msg.Holds (prepareParams funcNo returnSize (makeArgs m a size)))
    (hfind : listFindProccess service.infos funcNo = some info)
    (hargs : .ofNat size = info.argsSize ∨ info.argsSize = anySize)
    (hret : returnSize = info.returnSize ∨ info.returnSize = anySize) :
    ∃ data, data.Holds (load m (a % 2 ^ 44) size) ∧ servedCall service source msg =
      .ok (info.proccess source funcNo ⟨data, size⟩) := by
  have hint : int20 size = size := int20_of_lt hsize
  have hdword : UInt32.ofInt size = .ofNat size := by
    refine UInt32.toNat_inj.mp ?_
    rw [UInt32.toNat_ofNat', UInt32.ofInt, UInt32.toNat_ofNat']
    omega
  have hnat : (UInt32.ofNat size).toNat = size := by
    rw [UInt32.toNat_ofNat']
    omega
  simp only [prepareParams, makeArgs, hint, hdword, Int.toNat_natCast] at h
  obtain ⟨data, hdata, hserved⟩ := servedCall_holds h hfind hargs hret
  rw [hnat, hint] at hserved
  exact ⟨data, hdata, hserved⟩

/-! ### The wrappers on what was written -/

theorem readChars_eq (n : Nat) (s : Cursor) : readChars n s = load s.mem s.ptr n := by
  induction n generalizing s with
  | zero => rfl
  | succ n ih =>
    rw [readChars, ih, Nat.add_comm n 1, load_add]
    rfl

theorem wrapperShareMemory_holds {addr : UInt64} {pages target : Int32} {size : Int}
    (h : data.Holds (qword.encode addr ++ (int.encode pages ++ int.encode target))) :
    wrapperShareMemory ⟨data, size⟩ = some (.shareMemory addr pages target) := by
  obtain ⟨haddr, h1⟩ := argRead_holds h
  obtain ⟨hpages, h2⟩ := argRead_holds h1
  simp only [wrapperShareMemory, haddr, hpages, argRead_last h2]

theorem wrapperWriteChar_holds {column line : Int32} {color ch : UInt8} {size : Int}
    (h : data.Holds (int.encode column ++ (int.encode line ++ (byte.encode color ++ byte.encode ch)))) :
    wrapperWriteChar ⟨data, size⟩ = some (.writeChar column line color ch) := by
  obtain ⟨hcolumn, h1⟩ := argRead_holds h
  obtain ⟨hline, h2⟩ := argRead_holds h1
  obtain ⟨hcolor, h3⟩ := argRead_holds h2
  simp only [wrapperWriteChar, hcolumn, hline, hcolor, argRead_last h3]

theorem wrapperCreateFramebuffer_holds {column line width height : Int32} {size : Int}
    (h : data.Holds
      (int.encode column ++ (int.encode line ++ (int.encode width ++ int.encode height)))) :
    wrapperCreateFramebuffer ⟨data, size⟩ = some (.createFramebuffer column line width height) := by
  obtain ⟨hcolumn, h1⟩ := argRead_holds h
  obtain ⟨hline, h2⟩ := argRead_holds h1
  obtain ⟨hwidth, h3⟩ := argRead_holds h2
  simp only [wrapperCreateFramebuffer, hcolumn, hline, hwidth, argRead_last h3]

theorem wrapperPutchar_holds {consoleNo : Int32} {ch : UInt8} {size : Int}
    (h : data.Holds (int.encode consoleNo ++ byte.encode ch)) :
    wrapperPutchar ⟨data, size⟩ = some (.ttyPutchar consoleNo ch) := by
  obtain ⟨hconsole, h1⟩ := argRead_holds h
  simp only [wrapperPutchar, hconsole, argRead_last h1]

theorem sizeT_of_lt {n : Nat} (h : n < 2 ^ 64) : sizeT n = n := by
  rw [sizeT]
  omega

/-- The number of characters as an `int`. -/
theorem toInt_ofNat {n : Nat} (h : n < 524288) : (Int32.ofNat n).toInt = n := by
  rw [Int32.toInt_ofNat_of_lt]
  omega

theorem wrapperPuts_holds {consoleNo : Int32} {str : List UInt8} (hlen : str.length + 8 < 524288)
    (h : data.Holds (int.encode consoleNo ++ (int.encode (.ofNat str.length) ++ str))) :
    wrapperPuts ⟨data, (str.length + 8 : Nat)⟩ = some (.ttyPuts consoleNo str) := by
  obtain ⟨hconsole, h1⟩ := argRead_holds h
  obtain ⟨hnum, h2⟩ := argRead_holds h1
  have hint : (Int32.ofNat str.length).toInt = str.length := toInt_ofNat (by omega)
  have hsame : sizeT (str.length + 8 : Nat) = sizeT (8 + str.length) := by
    rw [show (8 + str.length : Int) = (str.length + 8 : Nat) by omega]
  have hsize : ¬ sizeT (8 + str.length) < 8 := by
    rw [← hsame, sizeT_of_lt (by omega)]
    omega
  simp only [wrapperPuts, if_neg hsize, hconsole, hnum, hint, hsame, ne_eq, not_true_eq_false, if_false,
    Int.toNat_natCast, readChars_eq]
  rw [show load _ _ str.length = str from h2]

theorem wrapperWriteString_holds {column line : Int32} {color : UInt8} {str : List UInt8}
    (hlen : str.length + 13 < 524288)
    (h : data.Holds (int.encode column ++ (int.encode line ++ (byte.encode color ++
      (int.encode (.ofNat str.length) ++ str))))) :
    wrapperWriteString ⟨data, (str.length + 13 : Nat)⟩ =
      some (.writeString column line color str) := by
  obtain ⟨hcolumn, h1⟩ := argRead_holds h
  obtain ⟨hline, h2⟩ := argRead_holds h1
  obtain ⟨hcolor, h3⟩ := argRead_holds h2
  obtain ⟨hnum, h4⟩ := argRead_holds h3
  have hint : (Int32.ofNat str.length).toInt = str.length := toInt_ofNat (by omega)
  have hsame : sizeT (str.length + 13 : Nat) = sizeT (13 + str.length) := by
    rw [show (13 + str.length : Int) = (str.length + 13 : Nat) by omega]
  have hsize : ¬ sizeT (13 + str.length) < 13 := by
    rw [← hsame, sizeT_of_lt (by omega)]
    omega
  simp only [wrapperWriteString, if_neg hsize, hcolumn, hline, hcolor, hnum, hint, hsame, ne_eq,
    not_true_eq_false, if_false, Int.toNat_natCast, readChars_eq]
  rw [show load _ _ str.length = str from h4]

theorem holds_int {x : Int32} (h : int.decode (load m a 4) = x) :
    Cursor.Holds ⟨m, a⟩ (int.encode x) := by
  rw [Cursor.Holds, int.length_encode]
  exact (int_decode_eq_iff (length_load m a 4)).mp h

theorem wrapperWriteString_eq {column line : Int32} {color : UInt8} {str : List UInt8}
    (hlen : str.length + 13 < 524288)
    (h : wrapperWriteString ⟨data, (str.length + 13 : Nat)⟩ =
      some (.writeString column line color str)) :
    data.Holds (int.encode column ++ (int.encode line ++ (byte.encode color ++
      (int.encode (.ofNat str.length) ++ str)))) := by
  obtain ⟨m, a⟩ := data
  obtain ⟨num, hnum⟩ : ∃ num, num = int.decode (load m (a + 9) 4) := ⟨_, rfl⟩
  have hw : wrapperWriteString ⟨⟨m, a⟩, (str.length + 13 : Nat)⟩ =
      if sizeT (str.length + 13 : Nat) < 13 then none
      else if sizeT (str.length + 13 : Nat) ≠ sizeT (13 + num.toInt) then none
      else some (.writeString (int.decode (load m a 4)) (int.decode (load m (a + 4) 4))
        (byte.decode (load m (a + 8) 1)) (readChars num.toInt.toNat ⟨m, a + 13⟩)) := by
    rw [hnum]
    rfl
  have hsize : ¬ sizeT (str.length + 13 : Nat) < 13 := by
    rw [sizeT_of_lt (by omega)]
    omega
  rw [hw, if_neg hsize] at h
  split at h
  · exact nomatch h
  · next hsame =>
    rw [ne_eq, not_not, sizeT, sizeT] at hsame
    simp only [Option.some.injEq, Call.writeString.injEq, readChars_eq] at h
    obtain ⟨hcolumn, hline, hcolor, hstr⟩ := h
    have hlt := num.toInt_lt
    have hge := num.le_toInt
    have hint : num.toInt = str.length := by omega
    have hlen' : num = .ofNat str.length := by
      rw [← Int32.toInt_inj, hint, toInt_ofNat (by omega)]
    have hbyte : Cursor.Holds ⟨m, a + 8⟩ (byte.encode color) := by
      rw [← hcolor]
      rfl
    have hchars : Cursor.Holds ⟨m, a + 13⟩ str := by
      rw [hint, Int.toNat_natCast] at hstr
      exact hstr
    have htail := holds_append.mpr ⟨holds_int (hnum.symm.trans hlen'), hchars⟩
    exact holds_append.mpr ⟨holds_int hcolumn, holds_append.mpr ⟨holds_int hline,
      holds_append.mpr ⟨hbyte, htail⟩⟩⟩

/-! ### The calls -/

/-- The size of the arguments goes into 20 bits. -/
def Call.Fits : Call → Prop
  | .writeString _ _ _ str => str.length + 13 < 524288
  | .ttyPuts _ str => str.length + 8 < 524288
  | _ => True

def stringBytes (column line : Int32) (color : UInt8) (str : List UInt8) : List UInt8 :=
  int.encode column ++ (int.encode line ++ (byte.encode color ++ (int.encode (.ofNat str.length) ++ str)))

/-- `swap_framebuffer` passes a `bool` and three bytes of its stack, `share_keybuffer` the
byte behind its buffer, and `write_string` what is at its pointer cut short. -/
def Call.Sound (m : Nat → UInt8) (buffer p : Nat) : Call → Prop
  | .swapFramebuffer id => int.encode id = bool.encode (id ≠ 0) ++ load m (buffer + 1) 3
  | .shareKeybuffer flag => flag = decide (m (buffer + 1) ≠ 0)
  | .writeString column line color str => p % 256 < 128 ∨
      load m (2 ^ 44 - 256 + p % 256) (str.length + 13) = stringBytes column line color str
  | _ => True

/-- What the server finds for the call. -/
def Call.entry : Call → ProccessInfo (Option Call)
  | .shareMemory .. => registered 0 wrapperShareMemory 8 16
  | .createShareMemory _ => registered 1 wrapperCreateShareMemory 8 4
  | .writeChar .. => registered 0 wrapperWriteChar 1 10
  | .writeString .. => registered 1 wrapperWriteString 1 anySize
  | .createFramebuffer .. => registered 2 wrapperCreateFramebuffer 16 16
  | .swapFramebuffer _ => registered 3 wrapperSwapFramebuffer 1 4
  | .flushConsole _ => registered 1 wrapperFlushConsole 1 4
  | .ttyPutchar .. => registered 0 wrapperPutchar 1 5
  | .ttyPuts .. => registered 2 wrapperPuts 1 anySize
  | .ttyGetchar _ => registered 3 wrapperGetchar 1 4
  | .getkey => registered 0 wrapperGetkey 2 1
  | .shareKeybuffer _ => registered 0 wrapperShareKeybuffer 8 1

theorem listFindProccess_entry (c : Call) :
    listFindProccess c.service.infos c.funcNo = some c.entry := by
  cases c <;> rfl

theorem returnSize_entry (c : Call) : c.returnSize = c.entry.returnSize := by
  cases c <;> rfl

theorem servedCall_args {c : Call} {mem : Nat → UInt8}
    (hargs : c.args m buffer p = makeArgs mem a size) (hsize : size < 524288)
    (h : msg.Holds (c.request m buffer p))
    (hasize : .ofNat size = c.entry.argsSize ∨ c.entry.argsSize = anySize) :
    ∃ data, data.Holds (load mem (a % 2 ^ 44) size) ∧ servedCall c.service source msg =
      .ok (c.entry.proccess source c.funcNo ⟨data, size⟩) := by
  rw [Call.request, hargs] at h
  exact servedCall_makeArgs hsize h (listFindProccess_entry c) hasize (.inl (returnSize_entry c))

theorem servedCall_written {c : Call} (bs : List UInt8)
    (hargs : c.args m buffer p = makeArgs (written m a bs).mem a size) (hlen : bs.length = size)
    (hsize : size < 524288) (ha : a < 2 ^ 44) (h : msg.Holds (c.request m buffer p))
    (hasize : .ofNat size = c.entry.argsSize ∨ c.entry.argsSize = anySize) :
    ∃ data, data.Holds bs ∧ servedCall c.service source msg =
      .ok (c.entry.proccess source c.funcNo ⟨data, size⟩) := by
  obtain ⟨data, hdata, hserved⟩ := servedCall_args hargs hsize h hasize
  rw [Nat.mod_eq_of_lt ha, ← hlen, load_written] at hdata
  exact ⟨data, hdata, hserved⟩

/-- A call whose wrapper reads the written bytes as they were meant goes through. -/
theorem served_of_written {c : Call} (bs : List UInt8)
    (hargs : c.args m buffer p = makeArgs (written m a bs).mem a size) (hlen : bs.length = size)
    (hsize : size < 524288) (ha : a < 2 ^ 44) (h : msg.Holds (c.request m buffer p))
    (hasize : .ofNat size = c.entry.argsSize ∨ c.entry.argsSize = anySize)
    (hread : ∀ data : Cursor, data.Holds bs → c.entry.proccess source c.funcNo ⟨data, size⟩ = some c) :
    servedCall c.service source msg = .ok (some c) := by
  obtain ⟨data, hdata, hserved⟩ := servedCall_written bs hargs hlen hsize ha h hasize
  rw [hserved, hread data hdata]

/-! ### The three calls that go astray -/

theorem length_stringBytes (column line : Int32) (color : UInt8) (str : List UInt8) :
    (stringBytes column line color str).length = str.length + 13 := by
  simp only [stringBytes, List.length_append, int.length_encode, byte.length_encode]
  simp only [int, byte]
  omega

theorem writeString_args (column line : Int32) (color : UInt8) (str : List UInt8) :
    (Call.writeString column line color str).args m buffer p =
      makeArgs (written m (throughChar p) (stringBytes column line color str)).mem (throughChar p)
        (str.length + 13) := by
  simp only [Call.args, writeString, argWrite_start, argWrite_written, copyTo_written, stringBytes,
    List.append_assoc]

/-- Through a negative `char` the server reads what was there before the call. -/
theorem writeString_astray {column line : Int32} {color : UInt8} {str : List UInt8}
    (hfits : str.length + 13 < 524288) (hlow : ¬ p % 256 < 128)
    (h : msg.Holds ((Call.writeString column line color str).request m buffer p)) :
    servedCall (Call.writeString column line color str).service source msg =
        .ok (some (.writeString column line color str)) ↔
      load m (2 ^ 44 - 256 + p % 256) (str.length + 13) = stringBytes column line color str := by
  have hchar : throughChar p = 2 ^ 64 - 256 + p % 256 := if_neg hlow
  have hmod : throughChar p % 2 ^ 44 = 2 ^ 44 - 256 + p % 256 := by
    rw [hchar]
    omega
  have hlen := length_stringBytes column line color str
  obtain ⟨data, hdata, hserved⟩ :=
    servedCall_args (writeString_args column line color str) hfits h (.inr rfl)
  have hapart : load (written m (throughChar p) (stringBytes column line color str)).mem
      (2 ^ 44 - 256 + p % 256) (str.length + 13) =
      load m (2 ^ 44 - 256 + p % 256) (str.length + 13) := by
    refine load_store_apart (.inr ?_)
    rw [hchar]
    omega
  rw [hmod, hapart] at hdata
  constructor
  · intro hok
    have hread : wrapperWriteString ⟨data, (str.length + 13 : Nat)⟩ =
        some (.writeString column line color str) := Except.ok.inj (hserved.symm.trans hok)
    have hbytes := wrapperWriteString_eq hfits hread
    rw [Cursor.Holds, length_load] at hdata
    refine hdata.symm.trans ?_
    rw [← hlen]
    exact hbytes
  · intro hh
    rw [hh] at hdata
    exact hserved.trans (congrArg _ (wrapperWriteString_holds hfits hdata))

/-- `swap_framebuffer` writes one byte of the four that its wrapper reads. -/
theorem swapFramebuffer_served {id : Int32} (hb : buffer < 2 ^ 44)
    (h : msg.Holds ((Call.swapFramebuffer id).request m buffer p)) :
    servedCall (Call.swapFramebuffer id).service source msg = .ok (some (.swapFramebuffer
      (int.decode (bool.encode (id ≠ 0) ++ load m (buffer + 1) 3)))) := by
  have hargs : (Call.swapFramebuffer id).args m buffer p =
      makeArgs (written m buffer (bool.encode (id ≠ 0))).mem buffer 4 := by
    simp only [Call.args, swapFramebuffer, argWrite_start]
  obtain ⟨data, hdata, hserved⟩ := servedCall_args hargs (by omega) h (.inl rfl)
  have hload : load (written m buffer (bool.encode (id ≠ 0))).mem (buffer % 2 ^ 44) 4 =
      bool.encode (id ≠ 0) ++ load m (buffer + 1) 3 := by
    rw [Nat.mod_eq_of_lt hb, show 4 = 1 + 3 from rfl, load_add]
    exact congrArg₂ _ (load_store m buffer (bool.encode _)) (load_store_apart (.inl (Nat.le_refl _)))
  rw [hload] at hdata
  refine hserved.trans ?_
  rw [← show load data.mem data.ptr 4 = _ from hdata]
  rfl

/-- `share_keybuffer` passes the byte behind the one it writes. -/
theorem shareKeybuffer_served {flag : Bool} (hb : buffer + 1 < 2 ^ 44)
    (h : msg.Holds ((Call.shareKeybuffer flag).request m buffer p)) :
    servedCall (Call.shareKeybuffer flag).service source msg =
      .ok (some (.shareKeybuffer (decide (m (buffer + 1) ≠ 0)))) := by
  have hargs : (Call.shareKeybuffer flag).args m buffer p =
      makeArgs (written m buffer (bool.encode flag)).mem (buffer + 1) 1 := by
    simp only [Call.args, shareKeybuffer, argWrite_start]
    rfl
  obtain ⟨data, hdata, hserved⟩ := servedCall_args hargs (by omega) h (.inl rfl)
  have hload : load (written m buffer (bool.encode flag)).mem ((buffer + 1) % 2 ^ 44) 1 =
      load m (buffer + 1) 1 := by
    rw [Nat.mod_eq_of_lt hb]
    exact load_store_apart (.inl (Nat.le_refl _))
  have hone : load m (buffer + 1) 1 = [m (buffer + 1)] := rfl
  rw [hload, hone] at hdata
  have hbyte : bool.decode (load data.mem data.ptr 1) = decide (m (buffer + 1) ≠ 0) := by
    rw [show load data.mem data.ptr 1 = [m (buffer + 1)] from hdata]
    rfl
  exact hserved.trans (congrArg (fun x => Except.ok (some (Call.shareKeybuffer x))) hbyte)

/-- A call that goes through is read by its wrapper as it was made. -/
theorem rpc_stubs_agree_iff (c : Call) (hbuffer : buffer + 16 ≤ 2 ^ 44) (hp : p < 2 ^ 44)
    (hfits : c.Fits) (h : msg.Holds (c.request m buffer p)) :
    servedCall c.service source msg = .ok (some c) ↔ c.Sound m buffer p := by
  have hb : buffer < 2 ^ 44 := by omega
  cases c with
  | shareMemory addr pages target =>
    have hargs : (Call.shareMemory addr pages target).args m buffer p = makeArgs (written m buffer
        (qword.encode addr ++ (int.encode pages ++ int.encode target))).mem buffer 16 := by
      simp only [Call.args, shareMemory, argWrite_start, argWrite_written, List.append_assoc]
    refine iff_of_true (served_of_written _ hargs rfl (by omega) hb h (.inl rfl) ?_) trivial
    exact fun _ => wrapperShareMemory_holds
  | createShareMemory pages =>
    have hargs : (Call.createShareMemory pages).args m buffer p =
        makeArgs (written m buffer (int.encode pages)).mem buffer 4 := by
      simp only [Call.args, createShareMemory, argWrite_start]
    refine iff_of_true (served_of_written _ hargs rfl (by omega) hb h (.inl rfl) ?_) trivial
    exact fun _ hdata => congrArg (fun x => some (Call.createShareMemory x)) (argRead_last hdata)
  | writeChar column line color ch =>
    have hargs : (Call.writeChar column line color ch).args m buffer p = makeArgs (written m buffer
        (int.encode column ++ (int.encode line ++ (byte.encode color ++ byte.encode ch)))).mem
        buffer 10 := by
      simp only [Call.args, writeChar, argWrite_start, argWrite_written, List.append_assoc]
    refine iff_of_true (served_of_written _ hargs rfl (by omega) hb h (.inl rfl) ?_) trivial
    exact fun _ => wrapperWriteChar_holds
  | writeString column line color str =>
    by_cases hlow : p % 256 < 128
    · have ha : throughChar p < 2 ^ 44 := by
        rw [throughChar, if_pos hlow]
        omega
      refine iff_of_true (served_of_written _ (writeString_args column line color str)
        (length_stringBytes ..) hfits ha h (.inr rfl) ?_) (.inl hlow)
      exact fun _ => wrapperWriteString_holds hfits
    · exact (writeString_astray hfits hlow h).trans (or_iff_right hlow).symm
  | createFramebuffer column line width height =>
    have hargs : (Call.createFramebuffer column line width height).args m buffer p = makeArgs (written m buffer
        (int.encode column ++ (int.encode line ++ (int.encode width ++ int.encode height)))).mem
        buffer 16 := by
      simp only [Call.args, createFramebuffer, argWrite_start, argWrite_written, List.append_assoc]
    refine iff_of_true (served_of_written _ hargs rfl (by omega) hb h (.inl rfl) ?_) trivial
    exact fun _ => wrapperCreateFramebuffer_holds
  | swapFramebuffer id =>
    rw [swapFramebuffer_served hb h, Except.ok.injEq, Option.some.injEq, Call.swapFramebuffer.injEq,
      int_decode_eq_iff rfl]
    exact eq_comm
  | flushConsole consoleNo =>
    have hargs : (Call.flushConsole consoleNo).args m buffer p =
        makeArgs (written m buffer (int.encode consoleNo)).mem buffer 4 := by
      simp only [Call.args, flushConsole, argWrite_start]
    refine iff_of_true (served_of_written _ hargs rfl (by omega) hb h (.inl rfl) ?_) trivial
    exact fun _ hdata => congrArg (fun x => some (Call.flushConsole x)) (argRead_last hdata)
  | ttyPutchar consoleNo ch =>
    have hargs : (Call.ttyPutchar consoleNo ch).args m buffer p = makeArgs (written m buffer
        (int.encode consoleNo ++ byte.encode ch)).mem buffer 5 := by
      simp only [Call.args, ttyPutchar, argWrite_start, argWrite_written]
    refine iff_of_true (served_of_written _ hargs rfl (by omega) hb h (.inl rfl) ?_) trivial
    exact fun _ => wrapperPutchar_holds
  | ttyPuts consoleNo str =>
    have hargs : (Call.ttyPuts consoleNo str).args m buffer p = makeArgs (written m p
        (int.encode consoleNo ++ (int.encode (.ofNat str.length) ++ str))).mem p (str.length + 8) := by
      simp only [Call.args, ttyPuts, argWrite_start, argWrite_written, copyTo_written,
        List.append_assoc]
    have hlen : (int.encode consoleNo ++ (int.encode (.ofNat str.length) ++ str)).length =
        str.length + 8 := by
      simp only [List.length_append, int.length_encode]
      simp only [int]
      omega
    refine iff_of_true (served_of_written _ hargs hlen hfits hp h (.inr rfl) ?_) trivial
    exact fun _ => wrapperPuts_holds hfits
  | ttyGetchar consoleNo =>
    have hargs : (Call.ttyGetchar consoleNo).args m buffer p =
        makeArgs (written m buffer (int.encode consoleNo)).mem buffer 4 := by
      simp only [Call.args, ttyGetchar, argWrite_start]
    refine iff_of_true (served_of_written _ hargs rfl (by omega) hb h (.inl rfl) ?_) trivial
    exact fun _ hdata => congrArg (fun x => some (Call.ttyGetchar x)) (argRead_last hdata)
  | getkey =>
    have hargs : Call.getkey.args m buffer p = makeArgs (written m buffer (bool.encode false)).mem buffer 1 := by
      simp only [Call.args, getkey, argWrite_start]
    exact iff_of_true (served_of_written _ hargs rfl (by omega) hb h (.inl rfl) fun _ _ => rfl) trivial
  | shareKeybuffer flag =>
    rw [shareKeybuffer_served (by omega) h, Except.ok.injEq, Option.some.injEq, Call.shareKeybuffer.injEq]
    exact eq_comm

/-- With zeros on the stack `swap_framebuffer(1)` goes through. -/
theorem rpc_stubs_agree_one : ∃ msg : Cursor,
    msg.Holds ((Call.swapFramebuffer 1).request (fun _ => 0) 4096 0) ∧
      servedCall .video 7 msg = .ok (some (.swapFramebuffer 1)) := by
  have h := holds_store (fun _ => 0) 0 ((Call.swapFramebuffer 1).request (fun _ => 0) 4096 0)
  refine ⟨_, h, (rpc_stubs_agree_iff (.swapFramebuffer 1) (by decide) (by decide) trivial h).mpr ?_⟩
  change int.encode 1 = bool.encode (decide ((1 : Int32) ≠ 0)) ++ load (fun _ => 0) (4096 + 1) 3
  decide

/-- `swap_framebuffer(2)` swaps the framebuffer 1. -/
theorem rpc_swap_framebuffer_two : ∃ msg : Cursor,
    msg.Holds ((Call.swapFramebuffer 2).request (fun _ => 0) 4096 0) ∧
      servedCall .video 7 msg = .ok (some (.swapFramebuffer 1)) ∧
      servedCall .video 7 msg ≠ .ok (some (.swapFramebuffer 2)) := by
  have h := holds_store (fun _ => 0) 0 ((Call.swapFramebuffer 2).request (fun _ => 0) 4096 0)
  have hserved : servedCall .video 7 ⟨store (fun _ => 0) 0
      ((Call.swapFramebuffer 2).request (fun _ => 0) 4096 0), 0⟩ =
        .ok (some (.swapFramebuffer 1)) := by decide +kernel
  refine ⟨_, h, hserved, ?_⟩
  rw [hserved]
  decide

end RpcServer

end TayHuang
