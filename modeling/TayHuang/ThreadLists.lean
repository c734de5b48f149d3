import TayHuang.DoublyLinked
import TayHuang.ReadyRuns

/-! The list of a task's threads, and the operations that change it. -/

namespace TayHuang

open Function (update)
open LinkedCells

namespace Kernel

variable {k k' : Kernel} {l : List Nat} {t p : Nat}

/-! ### The loops over a list -/

theorem lastThread_eq {next : Nat → Option Nat} {fuel x y : Nat} {rest : List Nat}
    (h : Chained id (fun _ n => n) next (x :: rest) none) (hy : lastThread next fuel x = some y) :
    (x :: rest).getLast? = some y := by
  induction fuel generalizing x rest with
  | zero => simp [lastThread] at hy
  | succ fuel ih =>
    have hx : next x = rest.head? := by simpa [entry] using h.1
    rw [lastThread, hx] at hy
    cases rest with
    | nil => simpa using hy
    | cons z rest =>
      rw [List.getLast?_cons_cons]
      exact ih h.2 hy

theorem lastThread_getLast? {next last : Nat → Option Nat} {fuel x y : Nat}
    (h : IsDList next last (some x) l) (hy : lastThread next fuel x = some y) :
    l.getLast? = some y := by
  have hhead := h.head_eq
  cases l with
  | nil => simp at hhead
  | cons z rest =>
    obtain rfl := Option.some.inj hhead
    exact lastThread_eq h.linked.chained hy

theorem findThread_eq {next : Nat → Option Nat} {tids : Nat → Int} {tid : Int} {fuel : Nat}
    (h : Chained id (fun _ n => n) next l none) (hfuel : l.length < fuel) :
    findThread next tids tid fuel l.head? = some (l.find? fun t => tids t = tid) := by
  induction l generalizing fuel with
  | nil =>
    obtain ⟨fuel, rfl⟩ := Nat.exists_eq_succ_of_ne_zero (Nat.ne_of_gt hfuel)
    rfl
  | cons x l ih =>
    obtain ⟨fuel, rfl⟩ := Nat.exists_eq_succ_of_ne_zero (Nat.ne_of_gt (Nat.zero_lt_of_lt hfuel))
    have hx : next x = l.head? := by simpa [entry] using h.1
    rw [List.head?_cons, findThread, hx]
    by_cases he : tids x = tid
    · simp [he]
    · rw [if_neg he, ih h.2 (by simpa using hfuel)]
      simp [he]

theorem split_before (ht : t ∈ l) (hne : l.head? ≠ some t) :
    ∃ pre a post, l = pre ++ a :: t :: post := by
  obtain ⟨s, post, rfl⟩ := List.append_of_mem ht
  rcases List.eq_nil_or_concat' s with rfl | ⟨pre, a, rfl⟩
  · simp at hne
  · exact ⟨pre, a, post, by simp⟩

theorem mem_without {pre post : List Nat} {a : Nat} (h : (pre ++ a :: t :: post).Nodup) (u : Nat) :
    u ∈ pre ++ a :: post ↔ u ∈ pre ++ a :: t :: post ∧ u ≠ t := by
  have hperm : (pre ++ a :: t :: post).Perm (t :: (pre ++ a :: post)) := by
    rw [List.append_cons, List.append_cons pre a post]
    exact List.perm_middle
  have ht := (List.nodup_cons.mp (hperm.nodup h)).1
  rw [hperm.mem_iff, List.mem_cons]
  constructor
  · exact fun hu => ⟨.inr hu, fun he => ht (he ▸ hu)⟩
  · rintro ⟨hu | hu, hne⟩
    · exact absurd hu hne
    · exact hu

theorem relink_of_notMem {last : Nat → Option Nat} {q : Option Nat} (ht : t ∉ l) :
    relink last l.head? q t = last t := by
  cases l with
  | nil => rfl
  | cons n l =>
    refine Function.update_of_ne (fun he => ?_) ..
    exact ht (by simp [he])

/-! ### The invariant -/

/-- `l` is the list of the threads of the task `p`. -/
structure TaskOk (k : Kernel) (p : Nat) (l : List Nat) : Prop where
  list : IsDList k.next k.last (some (k.task p).threads) l
  mem : ∀ t, t ∈ l ↔ k.live t = true ∧ k.owner t = p
  tids : (l.map k.tid).Nodup
  below : ∀ t ∈ l, k.tid t < (k.task p).curTid
  handler : ∀ t, (k.ipc p).msgHandlerThread = some t → t ∈ l

/-- Every task has such a list. -/
def ThreadsOk (k : Kernel) : Prop :=
  ∀ p, p ∈ k.taskList ∨ p = k.emptyTask → ∃ l, TaskOk k p l

theorem ThreadsOk.light (h : ThreadsOk k) (hlive : k.live k.current = true) (hk : Light k k') :
    ThreadsOk k' := by
  obtain ⟨_, _, _, ipc, _, _, _, _, _, rfl, hipc⟩ := hk
  intro p hp
  obtain ⟨l, hl⟩ := h p hp
  refine ⟨l, hl.list, hl.mem, hl.tids, hl.below, fun t ht => ?_⟩
  rcases hipc p with he | ⟨rfl, he⟩
  · exact hl.handler t (he.symm.trans ht)
  · obtain rfl := Option.some.inj (he.symm.trans ht)
    exact (hl.mem _).mpr ⟨hlive, rfl⟩

theorem removeThread_of_last {a : Nat} (hlast : k.last t = some a) (hne : t ≠ a) :
    k.removeThread t = { k with
      next := update k.next a (k.next t)
      last := relink k.last (k.next t) (k.last t)
      live := update k.live t false } := by
  simp only [removeThread, hlast, Function.update_of_ne hne]
  cases k.next t <;> rfl

theorem ThreadsOk.remove (h : ThreadsOk k) (hlive : k.live t = true)
    (howner : k.owner t ∈ k.taskList ∨ k.owner t = k.emptyTask)
    (hfirst : t ≠ (k.task (k.owner t)).threads)
    (hreg : (k.ipc (k.owner t)).msgHandlerThread ≠ some t) : ThreadsOk (k.removeThread t) := by
  obtain ⟨l, hl⟩ := h _ howner
  have htl : t ∈ l := (hl.mem t).mpr ⟨hlive, rfl⟩
  have hhead : l.head? ≠ some t := by
    rw [← hl.list.head_eq]
    exact fun he => hfirst (Option.some.inj he).symm
  obtain ⟨pre, a, post, rfl⟩ := split_before htl hhead
  obtain ⟨hlast, hnext, herase⟩ := hl.list.erase
  have hnodup := hl.list.nodup
  have hta : t ≠ a := by
    rintro rfl
    simp [List.nodup_append] at hnodup
  rw [removeThread_of_last hlast hta]
  have hmem := mem_without hnodup
  intro q hq
  by_cases hqp : q = k.owner t
  · subst hqp
    refine ⟨pre ++ a :: post, herase, fun u => ?_, ?_, fun u hu => ?_, fun u hu => ?_⟩
    · rw [hmem, hl.mem]
      change _ ↔ update k.live t false u = true ∧ k.owner u = k.owner t
      by_cases hut : u = t
      · simp [hut]
      · simp [hut]
    · have hsub : (pre ++ a :: post).Sublist (pre ++ a :: t :: post) :=
        (List.Sublist.refl pre).append ((List.sublist_cons_self t post).cons_cons a)
      exact hl.tids.sublist (hsub.map _)
    · exact hl.below u ((hmem u).mp hu).1
    · refine (hmem u).mpr ⟨hl.handler u hu, ?_⟩
      rintro rfl
      exact hreg hu
  · obtain ⟨lq, hlq⟩ := h q hq
    have hother : ∀ u ∈ lq, u ∉ pre ++ a :: t :: post := by
      intro u hu hm
      exact hqp (((hlq.mem u).mp hu).2.symm.trans ((hl.mem u).mp hm).2)
    refine ⟨lq, hlq.list.congr fun u hu => ⟨?_, ?_⟩, fun u => ?_, hlq.tids, hlq.below, hlq.handler⟩
    · refine Function.update_of_ne (fun he => ?_) ..
      exact hother u hu (by simp [he])
    · rw [hnext]
      exact relink_of_notMem fun hm => hother u hu (by simp [hm])
    · rw [hlq.mem]
      change _ ↔ update k.live t false u = true ∧ k.owner u = q
      by_cases hut : u = t
      · subst hut
        simp [Ne.symm hqp]
      · rw [Function.update_of_ne hut]

/-- A fresh record is in no list, and clearing its links changes none. -/
theorem TaskOk.fresh (h : TaskOk k p l) (hfresh : k.live t = false) :
    (∀ u ∈ l, u ≠ t) ∧
      IsDList (update k.next t none) (update k.last t none) (some (k.task p).threads) l := by
  have hne : ∀ u ∈ l, u ≠ t := by
    rintro u hu rfl
    have hlive := ((h.mem u).mp hu).1
    simp [hfresh] at hlive
  exact ⟨hne, h.list.congr fun u hu =>
    ⟨Function.update_of_ne (hne u hu) .., Function.update_of_ne (hne u hu) ..⟩⟩

theorem TaskOk.push {pre : List Nat} {parent : Nat} {entry : UInt64}
    (h : TaskOk k p (pre ++ [parent])) (hfresh : k.live t = false) :
    TaskOk ((k.spawnThread t entry p).linkThread parent t) p (pre ++ [parent, t]) := by
  obtain ⟨hne, hlist⟩ := h.fresh hfresh
  have ht : t ∉ pre ++ [parent] := fun hm => hne t hm rfl
  have htid : (k.spawnThread t entry p).tid = update k.tid t (k.task p).curTid := by
    simp [spawnThread, createThreadInfo, takeStack]
  have hcur : ((k.spawnThread t entry p).task p).curTid = (k.task p).curTid + 1 := by
    simp [spawnThread, createThreadInfo, takeStack]
  have hthreads : ((k.spawnThread t entry p).task p).threads = (k.task p).threads := by
    simp [spawnThread, createThreadInfo, takeStack]
  have hsplit : pre ++ [parent, t] = (pre ++ [parent]) ++ [t] := by simp
  refine ⟨?_, fun u => ?_, ?_, fun u hu => ?_, fun u hu => ?_⟩
  · change IsDList _ _ (some ((k.spawnThread t entry p).task p).threads) _
    rw [hthreads]
    exact hlist.push ht (Function.update_self ..)
  · rw [hsplit, List.mem_append, h.mem, List.mem_singleton]
    change _ ↔ update k.live t true u = true ∧ update k.owner t p u = p
    by_cases hut : u = t
    · simp [hut]
    · simp [hut]
  · change ((pre ++ [parent, t]).map (k.spawnThread t entry p).tid).Nodup
    have hmap : (pre ++ [parent]).map (update k.tid t (k.task p).curTid) =
        (pre ++ [parent]).map k.tid :=
      List.map_congr_left fun u hu => Function.update_of_ne (hne u hu) ..
    rw [htid, hsplit, List.map_append, List.nodup_append, hmap]
    refine ⟨h.tids, by simp, fun i hi j hj hij => ?_⟩
    obtain ⟨u, hu, rfl⟩ := List.mem_map.mp hi
    have hlt := h.below u hu
    simp only [List.map_cons, Function.update_self, List.map_nil, List.mem_singleton] at hj
    omega
  · change (k.spawnThread t entry p).tid u < ((k.spawnThread t entry p).task p).curTid
    rw [htid, hcur]
    by_cases hut : u = t
    · rw [hut, Function.update_self]
      omega
    · rw [Function.update_of_ne hut]
      rw [hsplit, List.mem_append, List.mem_singleton] at hu
      have hlt := h.below u (hu.resolve_right hut)
      omega
  · rw [hsplit]
    exact List.mem_append_left _ (h.handler u hu)

/-- A new thread of the task `p` does not concern another task. -/
theorem TaskOk.other {q : Nat} (h : TaskOk k q l) (hfresh : k.live t = false) (hq : q ≠ p)
    (hlinks : ∀ u ∈ l, k'.next u = k.next u ∧ k'.last u = k.last u)
    (hlive : k'.live = update k.live t true) (howner : k'.owner = update k.owner t p)
    (htid : ∀ u, u ≠ t → k'.tid u = k.tid u) (htask : k'.task q = k.task q)
    (hipc : k'.ipc q = k.ipc q) : TaskOk k' q l := by
  have hne := (h.fresh hfresh).1
  refine ⟨?_, fun u => ?_, ?_, fun u hu => ?_, fun u hu => ?_⟩
  · rw [htask]
    exact h.list.congr hlinks
  · rw [h.mem, hlive, howner]
    by_cases hut : u = t
    · simp [hut, hfresh, Ne.symm hq]
    · simp [hut]
  · rw [List.map_congr_left fun u hu => htid u (hne u hu)]
    exact h.tids
  · rw [htid u (hne u hu), htask]
    exact h.below u hu
  · rw [hipc] at hu
    exact h.handler u hu

theorem ThreadsOk.createThread (h : ThreadsOk k) {fuel : Nat} {entry : UInt64}
    (hlive : k.live k.current = true) (hfresh : k.live t = false)
    (hp : p ∈ k.taskList ∨ p = k.emptyTask)
    (hk : k.__createThread__ fuel t entry p = some k') : ThreadsOk k' := by
  obtain ⟨parent, hparent, rfl⟩ := createThread_eq hk
  have htc : k.current ≠ t := by
    rintro rfl
    simp [hfresh] at hlive
  obtain ⟨lp, hlp⟩ := h p hp
  have hlast := lastThread_getLast? (hlp.fresh hfresh).2 hparent
  obtain ⟨pre, rfl⟩ := List.getLast?_eq_some_iff.mp hlast
  have howner : k.owner parent = p := ((hlp.mem parent).mp (by simp)).2
  refine ThreadsOk.light ?_ ?_ (.enqueueThread _ t)
  · intro q hq
    by_cases hqp : q = p
    · subst hqp
      exact ⟨_, hlp.push hfresh⟩
    · obtain ⟨lq, hlq⟩ := h q hq
      have hne := (hlq.fresh hfresh).1
      refine ⟨lq, hlq.other hfresh hqp (fun u hu => ⟨?_, ?_⟩) rfl rfl (fun u hu => ?_) ?_ rfl⟩
      · have hup : u ≠ parent := by
          rintro rfl
          exact hqp (((hlq.mem u).mp hu).2.symm.trans howner)
        exact (Function.update_of_ne hup ..).trans (Function.update_of_ne (hne u hu) ..)
      · exact (Function.update_of_ne (hne u hu) ..).trans (Function.update_of_ne (hne u hu) ..)
      · exact Function.update_of_ne hu ..
      · simp [linkThread, spawnThread, createThreadInfo, takeStack, hqp]
  · change update k.live t true k.current = true
    rw [Function.update_of_ne htc]
    exact hlive

theorem ThreadsOk.createTask (h : ThreadsOk k) {a : TaskParams} (hlive : k.live k.current = true)
    (howners : ∀ u, k.live u = true → k.owner u ∈ k.taskList ∨ k.owner u = k.emptyTask)
    (hfresh : k.live t = false) (hp : p ∉ k.taskList) (hempty : p ≠ k.emptyTask) :
    ThreadsOk (k.createTask p t a) := by
  have htc : k.current ≠ t := by
    rintro rfl
    simp [hfresh] at hlive
  refine ThreadsOk.light (k := (k.__createTask p t a).addTask p) ?_ ?_ (.enqueueThread ..)
  · intro q hq
    by_cases hqp : q = p
    · subst hqp
      have hlive' : ((k.__createTask q t a).addTask q).live = update k.live t true := rfl
      have howner' : ((k.__createTask q t a).addTask q).owner = update k.owner t q := rfl
      refine ⟨[t], ?_, fun u => ?_, by simp, fun u hu => ?_, fun u hu => ?_⟩
      · have hthreads : (((k.__createTask q t a).addTask q).task q).threads = t := by
          simp [__createTask, addTask]
        rw [hthreads]
        exact isDList_singleton (Function.update_self ..) (Function.update_self ..)
      · rw [hlive', howner', List.mem_singleton]
        by_cases hut : u = t
        · simp [hut]
        · simp only [hut, Function.update_of_ne hut, false_iff, not_and]
          rintro hl rfl
          rcases howners u hl with hm | hm
          · exact hp hm
          · exact hempty hm
      · rw [List.mem_singleton.mp hu]
        simp [__createTask, createThreadInfo, addTask]
      · simp [__createTask, addTask, initIpcInfo] at hu
    · have hq' : q ∈ k.taskList ∨ q = k.emptyTask :=
        hq.imp_left (List.mem_of_ne_of_mem hqp)
      obtain ⟨lq, hlq⟩ := h q hq'
      have hne := (hlq.fresh hfresh).1
      refine ⟨lq, hlq.other hfresh hqp (fun u hu => ⟨?_, ?_⟩) rfl rfl (fun u hu => ?_) ?_ ?_⟩
      · exact Function.update_of_ne (hne u hu) ..
      · exact Function.update_of_ne (hne u hu) ..
      · exact Function.update_of_ne hu ..
      · simp [__createTask, createThreadInfo, addTask, hqp]
      · simp [__createTask, createThreadInfo, addTask, hqp]
  · change update k.live t true k.current = true
    rw [Function.update_of_ne htc]
    exact hlive

end Kernel

end TayHuang
