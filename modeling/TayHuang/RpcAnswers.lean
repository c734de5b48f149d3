import TayHuang.RpcCalls

/-! Which answer is in the buffer when `rpc_call` returns. -/

namespace TayHuang

open Function (update)
open LinkedCells Fuel Runs Blocks LittleEndian

/-- Whose block it is. -/
inductive Owner (ι : Type)
  | static
  | params (t : ι)
  | data (t : ι)

variable {ι : Type} {junk : Nat → Nat → UInt8} {s s' : Client ι} {l : List Entry} {owner : Nat → Owner ι}
  {t u : ι} {c d : Call} {b returnSize : Nat}

structure BlockOf (store : Store UInt8) (owner : Nat → Owner ι) (o : Owner ι) (b : Nat)
    (bytes : List UInt8) : Prop where
  live : store.heap b = some bytes
  old : b < store.next
  owned : owner b = o

/-- The return buffer holds the answer once it has come. -/
def Answered (c : Call) (bytes : List UInt8) : Prop :=
  ∀ msg, c.answer = some msg → bytes = msg ∧ ∃ payload, AnswerTo c.func c.returnSize msg payload

structure CallOk (s : Client ι) (l : List Entry) (owner : Nat → Owner ι) (t : ι) (c : Call) :
    Prop where
  result : s.result = some c.result
  fits : c.returnSize ≤ s.resultSz
  params : ∃ bytes, BlockOf s.store owner (.params t) c.params bytes
  data : ∃ bytes, BlockOf s.store owner (.data t) c.returnData bytes ∧
    bytes.length = 8 + c.returnSize ∧ Answered c bytes
  signal : c.signal < s.signals
  woken : c.woken = true → c.answer ≠ none
  listed : c.answer = none → valueIn l c.id = some (c.signal, c.returnData)
  kept : c.answer = none → s.removing = some c.id → (ids l).head? = some c.id

structure CallsOk (s : Client ι) (l : List Entry) (owner : Nat → Owner ι) : Prop where
  intact : s.store.misused = false
  list : RegList s.reg l
  nodup : (ids l).Nodup
  static : ∀ b, s.result = some b → ∃ bytes, BlockOf s.store owner .static b bytes ∧
    bytes.length = s.resultSz
  call : ∀ t c, s.calls t = some c → CallOk s l owner t c
  signals : ∀ t u c d, s.calls t = some c → s.calls u = some d → c.signal = d.signal → t = u
  removing : ∀ id, s.removing = some id → id ∈ ids l

/-! ### Blocks -/

section Blocks

variable {store : Store UInt8} {o o' : Owner ι} {bytes : List UInt8}

theorem BlockOf.ne {b' : Nat} {bytes' : List UInt8} (h : BlockOf store owner o b bytes)
    (h' : BlockOf store owner o' b' bytes') (ho : o ≠ o') : b ≠ b' := by
  rintro rfl
  exact ho (h.owned.symm.trans h'.owned)

theorem BlockOf.alloc (h : BlockOf store owner o b bytes) (init : List UInt8) :
    BlockOf (store.alloc init) (update owner store.next o') o b bytes := by
  have hb : b ≠ store.next := Nat.ne_of_lt h.old
  refine ⟨?_, Nat.lt_succ_of_lt h.old, ?_⟩
  · rw [Store.alloc_heap_of_lt _ _ h.old, h.live]
  · rw [Function.update_of_ne hb, h.owned]

theorem blockOf_alloc (init : List UInt8) :
    BlockOf (store.alloc init) (update owner store.next o) o store.next init :=
  ⟨Store.alloc_heap_next _ _, Nat.lt_succ_self _, Function.update_self _ _ _⟩

theorem BlockOf.free (h : BlockOf store owner o b bytes) {b' : Nat} (hb : b ≠ b') :
    BlockOf (store.free b') owner o b bytes :=
  ⟨by rw [Store.free_heap_of_ne _ hb, h.live], by rw [Store.free_next]; exact h.old, h.owned⟩

theorem BlockOf.write_of_ne (h : BlockOf store owner o b bytes) {b' : Nat} (hb : b ≠ b')
    (bytes' : List UInt8) : BlockOf (store.write b' bytes') owner o b bytes :=
  ⟨by rw [Store.write_heap_of_ne _ _ hb, h.live], by rw [Store.write_next]; exact h.old, h.owned⟩

theorem BlockOf.write (h : BlockOf store owner o b bytes) {bytes' : List UInt8}
    (hlen : bytes'.length ≤ bytes.length) : BlockOf (store.write b bytes') owner o b
      (bytes' ++ bytes.drop bytes'.length) := by
  refine ⟨?_, by rw [Store.write_next]; exact h.old, h.owned⟩
  rw [Store.write_eq _ h.live hlen]
  exact Function.update_self _ _ _

theorem BlockOf.write_misused (h : BlockOf store owner o b bytes) {bytes' : List UInt8}
    (hlen : bytes'.length ≤ bytes.length) : (store.write b bytes').misused = store.misused := by
  rw [Store.write_eq _ h.live hlen]

theorem BlockOf.free_misused (h : BlockOf store owner o b bytes) :
    (store.free b).misused = store.misused := by
  rw [Store.free_eq _ h.live]

end Blocks

theorem CallOk.frame {l' : List Entry} {owner' : Nat → Owner ι} (h : CallOk s l owner t c)
    (hresult : s'.result = s.result) (hsz : s'.resultSz = s.resultSz)
    (hblock : ∀ o b bytes, o = .params t ∨ o = .data t → BlockOf s.store owner o b bytes →
      BlockOf s'.store owner' o b bytes)
    (hsignal : s.signals ≤ s'.signals)
    (hlisted : c.answer = none → valueIn l' c.id = valueIn l c.id)
    (hkept : c.answer = none → s'.removing = some c.id → (ids l').head? = some c.id) :
    CallOk s' l' owner' t c := by
  obtain ⟨pbytes, hp⟩ := h.params
  obtain ⟨dbytes, hd, hrest⟩ := h.data
  exact ⟨hresult.trans h.result, hsz ▸ h.fits, ⟨pbytes, hblock _ _ _ (.inl rfl) hp⟩,
    ⟨dbytes, hblock _ _ _ (.inr rfl) hd, hrest⟩, Nat.lt_of_lt_of_le h.signal hsignal, h.woken,
    fun hn => (hlisted hn).trans (h.listed hn), hkept⟩

/-! ### The static buffer -/

theorem CallsOk.newResult (h : CallsOk s l owner) (hno : ∀ u, s.calls u = none)
    {store : Store UInt8} (hstore : store.misused = false) (bytes : List UInt8) :
    CallsOk
      { s with result := some store.next, resultSz := bytes.length, store := store.alloc bytes } l
      (update owner store.next .static) := by
  refine ⟨hstore, h.list, h.nodup, ?_, ?_, ?_, h.removing⟩
  · intro b hb
    obtain rfl : store.next = b := Option.some.inj hb
    exact ⟨bytes, blockOf_alloc bytes, rfl⟩
  · intro t c hc
    exact absurd ((hno t).symm.trans hc) (by simp)
  · intro t u c d hc
    exact absurd ((hno t).symm.trans hc) (by simp)

theorem length_blank (b size : Nat) : (blank junk b size).length = size := by
  simp [blank]

theorem sizeResult_frame (junk : Nat → Nat → UInt8) (s : Client ι) (returnSize : Nat) :
    (sizeResult junk s returnSize).reg = s.reg ∧
    (sizeResult junk s returnSize).msgidCounter = s.msgidCounter ∧
    (sizeResult junk s returnSize).signals = s.signals ∧
    (sizeResult junk s returnSize).calls = s.calls := by
  unfold sizeResult
  split
  · exact ⟨rfl, rfl, rfl, rfl⟩
  · split <;> exact ⟨rfl, rfl, rfl, rfl⟩

theorem CallsOk.sizeResult (junk : Nat → Nat → UInt8) (h : CallsOk s l owner)
    (hfit : s.resultSz < returnSize → ∀ u, s.calls u = none) :
    ∃ owner' b, CallsOk (sizeResult junk s returnSize) l owner' ∧
      (TayHuang.sizeResult junk s returnSize).result = some b ∧
      returnSize ≤ (TayHuang.sizeResult junk s returnSize).resultSz := by
  cases hres : s.result with
  | none =>
    have hno : ∀ u, s.calls u = none := by
      intro u
      cases hu : s.calls u with
      | none => rfl
      | some c =>
        have hh := (h.call u c hu).result
        rw [hres] at hh
        simp at hh
    have hh := h.newResult hno h.intact (blank junk s.store.next returnSize)
    rw [length_blank] at hh
    simp only [TayHuang.sizeResult, hres]
    exact ⟨_, _, hh, rfl, Nat.le_refl _⟩
  | some result =>
    by_cases hsz : s.resultSz < returnSize
    · obtain ⟨bytes, hb, -⟩ := h.static result hres
      have hnext : (s.store.free result).next = s.store.next := Store.free_next _
      have hh := h.newResult (hfit hsz) (hb.free_misused.trans h.intact)
        (blank junk s.store.next returnSize)
      rw [length_blank, hnext] at hh
      simp only [TayHuang.sizeResult, hres, if_pos hsz]
      exact ⟨_, _, hh, rfl, Nat.le_refl _⟩
    · simp only [TayHuang.sizeResult, hres, if_neg hsz]
      exact ⟨owner, result, h, rfl, Nat.le_of_not_lt hsz⟩

/-! ### The steps -/

theorem mem_ids_of_valueIn {m : Nat} {v : Nat × Nat} (h : valueIn l m = some v) : m ∈ ids l := by
  by_contra hn
  rw [valueIn_eq_none.mpr hn] at h
  simp at h

section Steps

variable [DecidableEq ι] {fuel signal new result : Nat} {func : UInt64} {args msg : List UInt8}

theorem call_of_update {calls : ι → Option Call} (h : update calls t (some d) u = some c) :
    u = t ∧ c = d ∨ u ≠ t ∧ calls u = some c := by
  by_cases hu : u = t
  · subst hu
    rw [Function.update_self] at h
    exact .inl ⟨rfl, (Option.some.inj h).symm⟩
  · rw [Function.update_of_ne hu] at h
    exact .inr ⟨hu, h⟩

theorem CallsOk.sendCall (h : CallsOk s l owner) (ht : s.calls t = none)
    (hresult : s.result = some result) (hsz : returnSize ≤ s.resultSz)
    (hsignal : s.signals ≤ signal) (hnew : new ∉ l.map Entry.addr)
    (hid : (getMsgid s.msgidCounter).1 ∉ ids l ∨ ids l = [(getMsgid s.msgidCounter).1] ∧
      ∀ u c, s.calls u = some c → c.id ≠ (getMsgid s.msgidCounter).1)
    (hstep : sendCall junk fuel s t func args returnSize result signal new = some s') :
    ∃ l' owner', CallsOk s' l' owner' := by
  obtain ⟨reg, hreg, rfl⟩ := Option.map_eq_some_iff.mp hstep
  generalize hm : (getMsgid s.msgidCounter).1 = id at hid hreg
  have hfit : SetFits l id := hid.imp_right And.left
  obtain ⟨r, l', hset, hlist, hnodup, hids, hval⟩ := setRpcResult_settles h.list h.nodup hfit hnew
  obtain rfl := hset.unique fuel reg hreg
  have hmem : ∀ m, m ∈ ids l → m ∈ ids l' := by
    intro m hm
    rw [hids]
    split
    · exact hm
    · exact List.mem_append_left _ hm
  have hhead : ∀ m, (ids l).head? = some m → (ids l').head? = some m := by
    intro m hm
    rw [hids]
    split
    · exact hm
    · rw [List.head?_append, hm]
      rfl
  have hfresh : ∀ u c, s.calls u = some c → c.answer = none → c.id ≠ id := by
    intro u c hc hn he
    rcases hid with hid | ⟨-, hid⟩
    · exact hid (he ▸ mem_ids_of_valueIn ((h.call u c hc).listed hn))
    · exact hid u c hc he
  let owner' := update (update owner s.store.next (.params t)) (s.store.next + 1) (.data t)
  have hblock : ∀ o b bytes, BlockOf s.store owner o b bytes →
      BlockOf ((s.store.alloc (prepareParams func returnSize args)).alloc
        (blank junk (s.store.next + 1) (8 + returnSize))) owner' o b bytes :=
    fun o b bytes hb => (hb.alloc _).alloc _
  refine ⟨l', owner', h.intact, hlist, hnodup, ?_, ?_, ?_, ?_⟩
  · intro b hb
    obtain ⟨bytes, hb, hlen⟩ := h.static b hb
    exact ⟨bytes, hblock _ _ _ hb, hlen⟩
  · intro u c hc
    rcases call_of_update hc with ⟨rfl, rfl⟩ | ⟨-, hc'⟩
    · refine ⟨hresult, hsz, ⟨_, (blockOf_alloc _).alloc _⟩, ⟨_, blockOf_alloc _, length_blank _ _,
        fun msg hmsg => by simp at hmsg⟩, Nat.lt_succ_self _, fun hw => by simp at hw, ?_, ?_⟩
      · intro _
        simp only [hval, Function.update_self]
      · intro _ hrem
        simp only at hrem ⊢
        rcases hid with hid | ⟨hid, -⟩
        · exact absurd (h.removing id hrem) hid
        · exact hhead id (by rw [hid]; rfl)
    · refine (h.call u c hc').frame rfl rfl (fun o b bytes _ hb => hblock o b bytes hb)
        (Nat.le_succ_of_le hsignal) ?_ ?_
      · intro hn
        rw [hval, Function.update_of_ne (hfresh u c hc' hn)]
      · intro hn hrem
        exact hhead _ ((h.call u c hc').kept hn hrem)
  · intro u v c d hc hd hs
    rcases call_of_update hc with ⟨rfl, rfl⟩ | ⟨-, hc'⟩ <;>
      rcases call_of_update hd with ⟨rfl, rfl⟩ | ⟨-, hd'⟩
    · rfl
    · have hlt := (h.call v d hd').signal
      simp only at hs
      omega
    · have hlt := (h.call u c hc').signal
      simp only at hs
      omega
    · exact h.signals u v c d hc' hd' hs
  · exact fun m hrem => hmem m (h.removing m hrem)

theorem answered_wake {calls : ι → Option Call} (hc : calls t = some c)
    (hsignal : ∀ u d, calls u = some d → d.signal = c.signal → u = t) (msg : List UInt8) :
    answered (wake calls c.signal) t msg =
      update calls t (some { c with woken := true, answer := some msg }) := by
  funext u
  by_cases hu : u = t
  · subst hu
    simp [answered, wake, hc]
  · simp only [answered, wake, Function.update_of_ne hu]
    cases hd : calls u with
    | none => rfl
    | some d =>
      have hne : d.signal ≠ c.signal := fun he => hu (hsignal u d hd he)
      simp [hne]

theorem CallsOk.answer {payload : List UInt8} (h : CallsOk s l owner) (hc : s.calls t = some c)
    (hn : c.answer = none) (hans : AnswerTo c.func c.returnSize msg payload)
    (hstep : handleResult fuel s c.id msg = some s') :
    CallsOk { s' with calls := answered s'.calls t msg } l owner := by
  obtain ⟨found, hfound, rfl⟩ := Option.map_eq_some_iff.mp hstep
  obtain ⟨a, hset, ha⟩ := getSignal_settles h.list c.id
  obtain rfl := hset.unique fuel found hfound
  have hcall := h.call t c hc
  rw [hcall.listed hn] at ha
  cases found with
  | none => simp at ha
  | some p =>
    have hp : (s.reg.node p).signal = c.signal ∧ (s.reg.node p).data = c.returnData := by
      simpa using ha
    have hsignal : ∀ u d, s.calls u = some d → d.signal = c.signal → u = t :=
      fun u d hd hs => h.signals u t d c hd hc hs
    obtain ⟨bytes, hdata, hlen, -⟩ := hcall.data
    have hmsg : msg.length = bytes.length := by
      rw [hlen, hans.1, List.length_append, length_toBytes, hans.2]
    have hwrite := hdata.write (Nat.le_of_eq hmsg)
    rw [hmsg, List.drop_length, List.append_nil] at hwrite
    have hother : ∀ o b bytes, o ≠ .data t → BlockOf s.store owner o b bytes →
        BlockOf (s.store.write c.returnData msg) owner o b bytes :=
      fun o b bytes ho hb => hb.write_of_ne (hb.ne hdata ho) msg
    simp only [hp, answered_wake hc hsignal]
    refine ⟨(hdata.write_misused (Nat.le_of_eq hmsg)).trans h.intact, h.list, h.nodup, ?_, ?_, ?_,
      ?_⟩
    · intro b hb
      obtain ⟨bytes, hb, hlen⟩ := h.static b hb
      exact ⟨bytes, hother _ _ _ (by simp) hb, hlen⟩
    · intro u d hd
      rcases call_of_update hd with ⟨rfl, rfl⟩ | ⟨hu, hd'⟩
      · obtain ⟨pbytes, hparams⟩ := hcall.params
        refine ⟨hcall.result, hcall.fits, ⟨pbytes, hother _ _ _ (by simp) hparams⟩,
          ⟨msg, hwrite, hmsg.trans hlen, ?_⟩, hcall.signal, fun _ => by simp, fun hn => by simp at hn,
          fun hn => by simp at hn⟩
        intro msg' hmsg'
        obtain rfl : msg = msg' := Option.some.inj hmsg'
        exact ⟨rfl, payload, hans⟩
      · refine (h.call u d hd').frame rfl rfl ?_ (Nat.le_refl _) (fun _ => rfl) ?_
        · rintro o b bytes (rfl | rfl) hb
          · exact hother _ _ _ (by simp) hb
          · exact hother _ _ _ (by simpa using hu) hb
        · -- no other call waits for an answer to this id
          intro hnd hrem
          have hid : c.id = d.id := Option.some.inj hrem
          have hv := (h.call u d hd').listed hnd
          rw [← hid, hcall.listed hn] at hv
          exact absurd (hsignal u d hd' (by simpa using (Prod.mk.inj (Option.some.inj hv)).1.symm)) hu
    · intro u v d e hd he hs
      rcases call_of_update hd with ⟨rfl, rfl⟩ | ⟨-, hd'⟩ <;>
        rcases call_of_update he with ⟨rfl, rfl⟩ | ⟨-, he'⟩
      · rfl
      · exact h.signals u v c e hc he' hs
      · exact h.signals u v d c hd' hc hs
      · exact h.signals u v d e hd' he' hs
    · intro m hrem
      obtain rfl : c.id = m := Option.some.inj hrem
      exact mem_ids_of_valueIn (hcall.listed hn)

omit [DecidableEq ι] in
theorem CallsOk.remove {id : Nat} {reg : Reg} (h : CallsOk s l owner)
    (hrem : s.removing = some id) (hstep : removeRpcResult fuel s.reg id = some reg) :
    ∃ l', CallsOk { s with reg := reg, removing := none } l' owner := by
  rcases l with - | ⟨x, - | ⟨y, l⟩⟩
  · exact absurd (h.removing id hrem) (by simp [ids])
  · obtain rfl := (removeRpcResult_short h.list (Nat.le_refl 1) id).unique fuel reg hstep
    refine ⟨[x], h.intact, h.list, h.nodup, h.static, ?_, h.signals, fun m hm => by simp at hm⟩
    intro u c hc
    exact (h.call u c hc).frame rfl rfl (fun _ _ _ _ hb => hb) (Nat.le_refl _) (fun _ => rfl)
      (fun _ hm => by simp at hm)
  · by_cases hy : y.msgid = id
    · subst hy
      obtain ⟨r, hset, hlist⟩ := removeRpcResult_second h.list
      obtain rfl := hset.unique fuel reg hstep
      have hnodup := h.nodup
      simp only [ids, List.map_cons, List.nodup_cons, List.mem_cons, not_or] at hnodup
      refine ⟨x :: l, h.intact, hlist, ?_, h.static, ?_, h.signals, fun m hm => by simp at hm⟩
      · simp only [ids, List.map_cons, List.nodup_cons]
        exact ⟨hnodup.1.2, hnodup.2.2⟩
      · intro u c hc
        refine (h.call u c hc).frame rfl rfl (fun _ _ _ _ hb => hb) (Nat.le_refl _) ?_
          (fun _ hm => by simp at hm)
        intro hn
        -- a call that still waits for this id has the head
        have hne : y.msgid ≠ c.id := by
          intro he
          have hk := (h.call u c hc).kept hn (by rw [hrem, he])
          simp only [ids, List.map_cons, List.head?_cons, Option.some.injEq] at hk
          exact hnodup.1.1 (hk.trans he.symm)
        simp only [valueIn_cons, if_neg hne]
    · have hh : removeRpcResult fuel s.reg id = none := removeRpcResult_diverges h.list hy fuel
      rw [hstep] at hh
      simp at hh

omit [DecidableEq ι] in
theorem AnswerTo.read {payload : List UInt8} (h : AnswerTo func returnSize msg payload) :
    ofBytes (msg.take 8) = func.toNat ∧ (msg.drop 8).take returnSize = payload := by
  have hlen : (toBytes 8 func.toNat).length = 8 := length_toBytes _ _
  obtain ⟨rfl, rfl⟩ := h
  rw [List.take_left' hlen, List.drop_left' hlen, List.take_length]
  exact ⟨ofBytes_toBytes_of_lt func.toNat_lt, rfl⟩

/-- A call that is woken returns its own answer in the static buffer. -/
theorem CallsOk.ret (h : CallsOk s l owner) (hc : s.calls t = some c) (hw : c.woken = true) :
    CallsOk (finishCall s t c).1 l owner ∧ ∃ msg payload bytes, c.answer = some msg ∧
      AnswerTo c.func c.returnSize msg payload ∧ (finishCall s t c).2 = some c.result ∧
      (finishCall s t c).1.store.heap c.result = some bytes ∧
      bytes.take c.returnSize = payload := by
  have hcall := h.call t c hc
  obtain ⟨msg, hmsg⟩ := Option.ne_none_iff_exists'.mp (hcall.woken hw)
  obtain ⟨dbytes, hdata, -, hans⟩ := hcall.data
  obtain ⟨rfl, payload, hans⟩ := hans msg hmsg
  obtain ⟨pbytes, hparams⟩ := hcall.params
  obtain ⟨bytes, hstatic, hlen⟩ := h.static c.result hcall.result
  have hfits : payload.length ≤ bytes.length := by
    rw [hlen, hans.2]
    exact hcall.fits
  have hread := hans.read
  have hwrite := hstatic.write hfits
  have hother : ∀ o b bytes, o ≠ .static → BlockOf s.store owner o b bytes →
      BlockOf (s.store.write c.result payload) owner o b bytes :=
    fun o b bytes ho hb => hb.write_of_ne (hb.ne hstatic ho) payload
  have hdata' := hother _ _ _ (by simp) hdata
  have hparams' := (hother _ _ _ (by simp) hparams).free (hparams.ne hdata (by simp))
  -- the blocks of everyone else survive the two frees
  have hfree : ∀ o b bytes, o ≠ .data t → o ≠ .params t →
      BlockOf (s.store.write c.result payload) owner o b bytes →
      BlockOf (((s.store.write c.result payload).free c.returnData).free c.params) owner o b
        bytes := by
    intro o b bytes hd hp hb
    have hb' := hb.free (hb.ne hdata' hd)
    exact hb'.free (hb'.ne hparams' hp)
  have hstatic' := hfree _ _ _ (by simp) (by simp) hwrite
  have hmisused : (((s.store.write c.result payload).free c.returnData).free c.params).misused =
      false := by
    rw [hparams'.free_misused, hdata'.free_misused, hstatic.write_misused hfits, h.intact]
  simp only [finishCall, hdata.live, hread.1, hread.2, if_true]
  refine ⟨⟨hmisused, h.list, h.nodup, ?_, ?_, ?_, h.removing⟩, dbytes, payload, _, hmsg, hans,
    hcall.result, hstatic'.live, ?_⟩
  · intro b hb
    obtain rfl : c.result = b := Option.some.inj (hcall.result.symm.trans hb)
    refine ⟨_, hstatic', ?_⟩
    rw [List.length_append, List.length_drop, ← hlen]
    omega
  · intro u d hd
    have hu : u ≠ t := by
      rintro rfl
      simp at hd
    have hd' : s.calls u = some d := by simpa [hu] using hd
    refine (h.call u d hd').frame rfl rfl ?_ (Nat.le_refl _) (fun _ => rfl) (h.call u d hd').kept
    rintro o b bytes (rfl | rfl) hb
    · exact hfree _ _ _ (by simp) (by simpa using hu) (hother _ _ _ (by simp) hb)
    · exact hfree _ _ _ (by simpa using hu) (by simp) (hother _ _ _ (by simp) hb)
  · intro u v d e hd he
    have hu : u ≠ t := by
      rintro rfl
      simp at hd
    have hv : v ≠ t := by
      rintro rfl
      simp at he
    exact h.signals u v d e (by simpa [hu] using hd) (by simpa [hv] using he)
  · rw [← hans.2, List.take_left]

theorem CallsOk.step {e : RpcEvent ι} (h : CallsOk s l owner) (hfit : RpcFits s e)
    (hstep : RpcStep junk s e s') : ∃ l' owner', CallsOk s' l' owner' := by
  obtain ⟨fuel, hstep⟩ := hstep
  cases e with
  | call t func args returnSize signal new =>
    simp only [rpcStep] at hstep
    split at hstep
    case isFalse => simp at hstep
    case isTrue hguard =>
      obtain ⟨hsz, k, hk, hnew, hid⟩ := hfit
      obtain rfl := h.list.unique hk
      obtain ⟨owner', b, hok, hb, hle⟩ := h.sizeResult junk hsz
      obtain ⟨hreg, hcounter, hsignals, hcalls⟩ := sizeResult_frame junk s returnSize
      simp only [rpcCall, hb] at hstep
      refine hok.sendCall ?_ hb hle ?_ hnew ?_ hstep
      · rw [hcalls, hguard.1]
      · rw [hsignals]
        exact hguard.2
      · rw [hcounter, hcalls]
        exact hid
  | answer t msg =>
    simp only [rpcStep] at hstep
    split at hstep
    case h_2 => simp at hstep
    case h_1 c hc hrem =>
      split at hstep
      case isFalse => simp at hstep
      case isTrue hn =>
        obtain ⟨s1, hs1, rfl⟩ := Option.map_eq_some_iff.mp hstep
        obtain ⟨payload, hans⟩ := hfit c hc
        exact ⟨l, owner, h.answer hc hn hans hs1⟩
  | remove =>
    simp only [rpcStep] at hstep
    split at hstep
    case h_1 => simp at hstep
    case h_2 id hrem =>
      obtain ⟨reg, hreg, rfl⟩ := Option.map_eq_some_iff.mp hstep
      obtain ⟨l', hok⟩ := h.remove hrem hreg
      exact ⟨l', owner, hok⟩
  | ret t =>
    simp only [rpcStep] at hstep
    split at hstep
    case h_1 => simp at hstep
    case h_2 c hc =>
      split at hstep
      case isFalse => simp at hstep
      case isTrue hw =>
        obtain rfl := Option.some.inj hstep
        exact ⟨l, owner, (h.ret hc hw).1⟩

theorem callsOk_of_run {es : List (RpcEvent ι)}
    (h : Run rpcBoot (Guarded RpcFits (RpcStep junk)) es s) : ∃ l owner, CallsOk s l owner := by
  refine h.invariant (I := fun _ s => ∃ l owner, CallsOk s l owner) ?_ ?_
  · rintro s ⟨hresult, -, hhead, hintact, hcalls, hrem⟩
    refine ⟨[], fun _ => .static, hintact, ⟨hhead, trivial, List.nodup_nil⟩, List.nodup_nil,
      fun b hb => ?_, fun t c hc => ?_, fun t u c d hc => ?_, fun m hm => ?_⟩
    · simp [hresult] at hb
    · simp [hcalls] at hc
    · simp [hcalls] at hc
    · simp [hrem] at hm
  · rintro es s e s' ⟨l, owner, hok⟩ ⟨hfit, hstep⟩
    exact hok.step hfit hstep

/-- In a run whose steps fit, nothing is written through a dead pointer, and a
`rpc_call` that returns has its own answer in the buffer. -/
theorem rpcCall_own_answer {es : List (RpcEvent ι)}
    (h : Run rpcBoot (Guarded RpcFits (RpcStep junk)) es s) :
    s.store.misused = false ∧
    ∀ t c, s.calls t = some c → c.woken = true →
      (finishCall s t c).1.store.misused = false ∧
      ∃ msg payload b bytes, c.answer = some msg ∧ AnswerTo c.func c.returnSize msg payload ∧
        (finishCall s t c).2 = some b ∧ (finishCall s t c).1.store.heap b = some bytes ∧
        bytes.take c.returnSize = payload := by
  obtain ⟨l, owner, hok⟩ := callsOk_of_run h
  refine ⟨hok.intact, fun t c hc hw => ?_⟩
  obtain ⟨hok', msg, payload, bytes, hmsg, hans, hb, hbytes, htake⟩ := hok.ret hc hw
  exact ⟨hok'.intact, msg, payload, _, bytes, hmsg, hans, hb, hbytes, htake⟩

end Steps

/-- A task before its first call. -/
def freshClient : Client Bool :=
  ⟨none, 0, ⟨none, fun _ => ⟨0, 0, 0, none⟩⟩, 0, 0, ⟨fun _ => none, 0, false⟩, fun _ => none, none⟩

/-- The second caller is answered first. -/
theorem rpcCall_own_answer_two : ∃ s c, Run rpcBoot (Guarded RpcFits (RpcStep fun _ _ => 0))
      [.call false 5 [] 4 0 100, .call true 6 [] 2 1 101, .answer true (toBytes 8 6 ++ [1, 2])] s ∧
    s.calls true = some c ∧ (finishCall s true c).1.store.misused = false ∧
    ∃ msg payload b bytes, c.answer = some msg ∧ AnswerTo c.func c.returnSize msg payload ∧
      (finishCall s true c).2 = some b ∧ (finishCall s true c).1.store.heap b = some bytes ∧
      bytes.take c.returnSize = payload := by
  have h0 : Run rpcBoot (Guarded RpcFits (RpcStep fun _ _ => 0)) [] freshClient :=
    .start ⟨rfl, rfl, rfl, rfl, fun _ => rfl, rfl⟩
  have h1 := h0.snoc (e := RpcEvent.call false 5 [] 4 0 100)
    ⟨⟨fun _ _ => rfl, [], ⟨rfl, trivial, List.nodup_nil⟩, by decide, .inl (by decide)⟩, 1, rfl⟩
  have h2 := h1.snoc (e := RpcEvent.call true 6 [] 2 1 101)
    ⟨⟨fun hn => absurd hn (by decide), [⟨100, 0, 0, 2⟩], ⟨rfl, ⟨rfl, trivial⟩, by decide⟩,
      by decide, .inl (by decide)⟩, 1, rfl⟩
  have h3 := h2.snoc (e := RpcEvent.answer true (toBytes 8 6 ++ [1, 2]))
    ⟨fun c hc => ⟨[1, 2], by obtain rfl := Option.some.inj hc; exact ⟨rfl, rfl⟩⟩, 3, rfl⟩
  exact ⟨_, _, h3, rfl, (rpcCall_own_answer h3).2 true _ rfl rfl⟩

/-- The second caller needs a larger buffer while the first one waits: the answer to
the first goes to the buffer that was freed, and is not in the one returned. -/
theorem rpcCall_writes_freed : ∃ s c, Run rpcBoot (RpcStep fun _ _ => 0)
      [.call false 5 [] 4 0 100, .call true 6 [] 8 1 101,
        .answer true (toBytes 8 6 ++ [0, 0, 0, 0, 0, 0, 0, 0]), .remove,
        .answer false (toBytes 8 5 ++ [1, 2, 3, 4])] s ∧
    s.calls false = some c ∧ c.woken = true ∧ s.store.misused = false ∧
    s.store.heap c.result = none ∧ (finishCall s false c).1.store.misused = true ∧
    ∃ b bytes, (finishCall s false c).2 = some b ∧
      (finishCall s false c).1.store.heap b = some bytes ∧ bytes.take 4 ≠ [1, 2, 3, 4] := by
  have h0 : Run rpcBoot (RpcStep fun _ _ => 0) [] freshClient :=
    .start ⟨rfl, rfl, rfl, rfl, fun _ => rfl, rfl⟩
  have h1 := h0.snoc (e := RpcEvent.call false 5 [] 4 0 100) ⟨1, rfl⟩
  have h2 := h1.snoc (e := RpcEvent.call true 6 [] 8 1 101) ⟨1, rfl⟩
  have h3 := h2.snoc (e := RpcEvent.answer true (toBytes 8 6 ++ [0, 0, 0, 0, 0, 0, 0, 0]))
    ⟨3, rfl⟩
  have h4 := h3.snoc (e := RpcEvent.remove) ⟨1, rfl⟩
  have h5 := h4.snoc (e := RpcEvent.answer false (toBytes 8 5 ++ [1, 2, 3, 4])) ⟨2, rfl⟩
  exact ⟨_, _, h5, rfl, rfl, rfl, rfl, rfl, _, _, rfl, rfl, by decide⟩

end TayHuang
