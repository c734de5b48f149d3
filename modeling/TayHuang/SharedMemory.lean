import TayHuang.VirtualPages
import TayHuang.Runs

/-! The shared-memory areas of sys_task.c. Each task has a pointer into its area, which
only moves up while every request can be satisfied. -/

namespace TayHuang

namespace Shm

open Function (update)
open Vm Runs

/-- What the requests use of `mm_info`. -/
structure MmInfo where
  pgd : Nat
  shmStart : Nat
  shmEnd : Nat
  shmPtr : Nat
  deriving DecidableEq

/-- The memory and the tasks that `get_task_by_pid` finds. -/
structure TaskMem where
  vm : VMem
  task : Int → Option MmInfo

/-- `shm_ptr + pages * MEMUNIT_SZ`, with an `int` product. -/
def advance (ptr : Nat) (pages : Int) : Nat :=
  (((ptr : Int) + Int.bmod (pages * 4096) (2 ^ 32)) % 2 ^ 64).toNat

def TaskMem.advance (s : TaskMem) (pid : Int) (t : MmInfo) (pages : Int) : Int → Option MmInfo :=
  update s.task pid (some { t with shmPtr := Shm.advance t.shmPtr pages })

set_option linter.style.nameCheck false in
/-- `__share_memory`, with the address that it returns and the pages that it mapped. -/
def __shareMemory (fuel : Nat) (s : TaskMem) (addr : Nat) (pages sourcePid targetPid : Int) :
    Option (TaskMem × Nat × List (Nat × Nat)) :=
  (s.task sourcePid).bind fun source => (s.task targetPid).bind fun target =>
    (setMappingvv fuel s.vm source.pgd addr target.pgd target.shmPtr pages true true).map fun r =>
      (⟨r.1, s.advance targetPid target pages⟩, target.shmPtr, r.2.2)

set_option linter.style.nameCheck false in
def __createShareMemory (fuel : Nat) (s : TaskMem) (pages sourcePid : Int) :
    Option (TaskMem × Nat × List (Nat × Nat)) :=
  (s.task sourcePid).bind fun source =>
    (allocVpages fuel s.vm source.pgd source.shmPtr pages).map fun r =>
      (⟨r.1, s.advance sourcePid source pages⟩, source.shmPtr, r.2)

/-! ### Requests in sequence -/

inductive Request
  | share (addr : Nat) (pages caller target : Int)
  | create (pages caller : Int)

def Request.pages : Request → Int
  | .share _ pages _ _ => pages
  | .create pages _ => pages

def Request.caller : Request → Int
  | .share _ _ caller _ => caller
  | .create _ caller => caller

/-- The task whose area the request is about. -/
def Request.pid : Request → Int
  | .share _ _ _ target => target
  | .create _ caller => caller

def perform (fuel : Nat) (s : TaskMem) : Request → Option (TaskMem × Nat × List (Nat × Nat))
  | .share addr pages caller target => __shareMemory fuel s addr pages caller target
  | .create pages caller => __createShareMemory fuel s pages caller

/-- A range handed out, and the pages mapped for it. -/
structure Handout where
  pid : Int
  start : Nat
  pages : Int
  mapped : List Nat

def Handout.span (g : Handout) : Set Nat := Set.Ico g.start (g.start + 4096 * g.pages.toNat)

/-- The tasks' memory and all that was handed out. -/
structure Service where
  mem : TaskMem
  given : List Handout

def serve (fuel : Nat) (s : Service) (r : Request) : Option Service :=
  (perform fuel s.mem r).map fun x =>
    ⟨x.1, s.given ++ [⟨r.pid, x.2.1, r.pages, x.2.2.map Prod.fst⟩]⟩

/-- Nothing is handed out yet. -/
def Fresh (s : Service) : Prop :=
  s.given = [] ∧ ∀ pid t, s.mem.task pid = some t →
    4096 ∣ t.shmStart ∧ t.shmPtr = t.shmStart ∧ t.shmStart ≤ t.shmEnd ∧ t.shmEnd < 2 ^ 64

/-- Every range lies in the area of its task, apart from the earlier ones, and pages
were mapped in it only. -/
structure AreasKept (s : Service) : Prop where
  inside : ∀ g ∈ s.given, ∃ t, s.mem.task g.pid = some t ∧ g.span ⊆ Set.Ico t.shmStart t.shmEnd
  apart : s.given.Pairwise fun g g' => g.pid = g'.pid → Disjoint g.span g'.span
  mapped : ∀ g ∈ s.given, ∀ a ∈ g.mapped, a ∈ g.span

/-- There is room for the pages in what is left of the area. -/
def Fits (t : MmInfo) (pages : Int) : Prop := 0 ≤ pages ∧ t.shmPtr + 4096 * pages ≤ t.shmEnd

/-- The tasks exist, the pages fit, and they are there: for `share` all of them are mapped
at the caller's and can be mapped at the target's, for `create` there are blocks for them
and pages for the tables. -/
def Satisfiable (fuel : Nat) (s : TaskMem) : Request → Prop
  | .share addr pages caller target => ∃ t u, s.task caller = some t ∧ s.task target = some u ∧
      Fits u pages ∧
      (∀ i < pages.toNat, getPhysicalAddress s.vm.tables t.pgd (pageAt (addr / 4096 * 4096) i) ≠ 0) ∧
      ∃ r, setMappingvv fuel s.vm t.pgd addr u.pgd u.shmPtr pages true true = some r ∧ r.2.1 = true
  | .create pages caller => ∃ t, s.task caller = some t ∧ Fits t pages ∧
      EveryPiece (fun v b m => Fed v b.1 ∧ m.length = 2 ^ b.1) fuel t.pgd s.vm
        (returnBlocks t.shmPtr pages.toNat)

/-- The request can be satisfied and its size in bytes is no `int` overflow; or it asks for
no pages and its size is a multiple of `2 ^ 32` bytes. -/
def Admissible (fuel : Nat) (s : TaskMem) (r : Request) : Prop :=
  Satisfiable fuel s r ∧ r.pages < 2 ^ 19 ∨
    (s.task r.caller).isSome ∧ (s.task r.pid).isSome ∧ r.pages ≤ 0 ∧ 2 ^ 20 ∣ r.pages

/-! ### The pages that are mapped -/

section Pages

variable {v v' : VMem} {fuel pgd : Nat} {ok : Bool} {m : List (Nat × Nat)}

theorem mapPages_addresses {frame : VMem → Nat → Nat} {rw us : Bool} {va n i : Nat}
    (hs : mapPages fuel pgd frame rw us va n i v = some (v', ok, m)) :
    ∀ x ∈ m, ∃ j < i + n, x.1 = pageAt va j := by
  replace hs := mapPages_iff.mp hs
  induction hs with
  | done => simp
  | @turn n i _ _ _ _ _ hx hrest ih =>
    intro x hx
    rcases List.mem_cons.mp hx with he | hx
    · exact ⟨i, by omega, by rw [he]⟩
    · obtain ⟨j, hj, he⟩ := ih x hx
      exact ⟨j, by omega, he⟩
  | stuck hx => simp

theorem allocPiece_addresses {b : Nat × Nat} (h9 : b.1 ≤ 9) (h4 : 4096 ∣ b.2)
    (hs : allocPiece fuel pgd v b = some (v', ok, m)) : ∀ x ∈ m, x.1 ∈ piecePages b := by
  obtain ⟨r, -, hs⟩ := Option.bind_eq_some_iff.mp hs
  have hpow : 2 ^ b.1 ≤ 2 ^ 9 := Nat.pow_le_pow_right (by decide) h9
  intro x hx
  obtain ⟨j, hj, he⟩ := mapPages_addresses hs x hx
  rw [Int.toNat_natCast, Nat.zero_add] at hj
  refine List.mem_map.mpr ⟨j, List.mem_range.mpr hj, ?_⟩
  rw [he, pageAt, Nat.div_mul_cancel h4]

theorem allocAll_addresses {ps : List (Nat × Nat)} (hps : ∀ b ∈ ps, b.1 ≤ 9 ∧ 4096 ∣ b.2)
    (hs : allocAll fuel pgd v ps = some (v', m)) : ∀ x ∈ m, x.1 ∈ ps.flatMap piecePages := by
  induction ps generalizing v m with
  | nil =>
    obtain ⟨-, rfl⟩ : v = v' ∧ [] = m := by simpa [allocAll] using hs
    simp
  | cons b bs ih =>
    obtain ⟨⟨v₁, ok₁, m₁⟩, hx, hs⟩ := Option.bind_eq_some_iff.mp hs
    obtain ⟨⟨v₂, m₂⟩, hy, hs⟩ := Option.map_eq_some_iff.mp hs
    obtain ⟨rfl, rfl⟩ : v₂ = v' ∧ m₁ ++ m₂ = m := by simpa using hs
    have hb := hps b (by simp)
    intro x hx'
    rw [List.flatMap_cons]
    rcases List.mem_append.mp hx' with hx' | hx'
    · exact List.mem_append_left _ (allocPiece_addresses hb.1 hb.2 hx x hx')
    · exact List.mem_append_right _ (ih (fun b hb => hps b (by simp [hb])) hy x hx')

/-- `alloc_vpages` maps requested pages only. -/
theorem allocVpages_addresses {addr n : Nat} (ha : 4096 ∣ addr) (hn : addr + 4096 * n ≤ 2 ^ 64)
    (hs : allocVpages fuel v pgd addr n = some (v', m)) :
    ∀ x ∈ m, x.1 ∈ Set.Ico addr (addr + 4096 * n) := by
  rw [allocVpages_eq] at hs
  have hcontiguous := contiguous_returnBlocks addr n
  have hpaged := paged_contiguous hcontiguous ha
  intro x hx
  have hmem := allocAll_addresses (fun b hb =>
    ⟨returnBlocks_order addr n b hb, hpaged b (Multiset.mem_coe.mpr hb)⟩) hs x hx
  rw [requested_pages hcontiguous (total_returnBlocks addr n)] at hmem
  obtain ⟨q, hq, he⟩ := List.mem_map.mp hmem
  have hq := List.mem_range.mp hq
  rw [← he, Nat.mod_eq_of_lt (by omega)]
  exact ⟨by omega, by omega⟩

/-- `set_mappingvv` maps requested pages only. -/
theorem setMappingvv_addresses {src addr dst n : Nat} {rw us : Bool} (ha : 4096 ∣ dst)
    (hn : dst + 4096 * n ≤ 2 ^ 64)
    (hs : setMappingvv fuel v src addr pgd dst n rw us = some (v', ok, m)) :
    ∀ x ∈ m, x.1 ∈ Set.Ico dst (dst + 4096 * n) := by
  intro x hx
  obtain ⟨j, hj, he⟩ := mapPages_addresses hs x hx
  rw [Int.toNat_natCast, Nat.zero_add] at hj
  rw [he, pageAt, Nat.div_mul_cancel ha, Nat.mod_eq_of_lt (by omega)]
  exact ⟨by omega, by omega⟩

theorem allocBits_none {k i vaddr : Nat} {pages : Int} (h : (2 : Int) ^ k ∣ pages) :
    allocBits fuel pgd k i v vaddr pages = some ((v, []), vaddr, pages / 2 ^ k) := by
  induction k generalizing i pages with
  | zero => simp [allocBits]
  | succ k ih =>
    obtain ⟨c, rfl⟩ := h
    have heven : (2 : Int) ^ (k + 1) * c = 2 * (2 ^ k * c) := by
      rw [pow_succ, mul_comm _ 2, mul_assoc]
    have h2 : ¬ (2 : Int) ^ (k + 1) * c % 2 ≠ 0 := by omega
    have hdiv : (2 : Int) ^ (k + 1) * c / 2 = 2 ^ k * c := by omega
    rw [allocBits, if_neg h2, hdiv, ih (Dvd.intro _ rfl)]
    have hk : (2 : Int) ^ k ≠ 0 := Int.pow_ne_zero (by decide)
    have hk' : (2 : Int) ^ (k + 1) ≠ 0 := Int.pow_ne_zero (by decide)
    rw [Int.mul_ediv_cancel_left _ hk, Int.mul_ediv_cancel_left _ hk']

theorem allocVpages_none {addr : Nat} {pages : Int} (h0 : pages ≤ 0) (h : 2 ^ 20 ∣ pages) :
    allocVpages fuel v pgd addr pages = some (v, []) := by
  have h9 : (2 : Int) ^ 9 ∣ pages := (by decide : (2 : Int) ^ 9 ∣ 2 ^ 20).trans h
  have htop : (pages / 2 ^ 9).toNat = 0 := by omega
  simp only [allocVpages, allocBits_none h9, Option.bind_some, htop, allocTop, Option.map_some,
    List.append_nil]

end Pages

/-! ### One request -/

theorem advance_fits {ptr n : Nat} (h19 : n < 2 ^ 19) (h : ptr + 4096 * n < 2 ^ 64) :
    advance ptr n = ptr + 4096 * n := by
  unfold advance
  rw [Int.bmod_def]
  split <;> omega

theorem advance_none {ptr : Nat} {pages : Int} (hp : ptr < 2 ^ 64) (h : 2 ^ 20 ∣ pages) :
    advance ptr pages = ptr := by
  unfold advance
  rw [Int.bmod_def]
  split <;> omega

section Requests

variable {fuel : Nat} {s : TaskMem} {r : Request} {x : TaskMem × Nat × List (Nat × Nat)}

theorem perform_task (hs : perform fuel s r = some x) : ∃ t, s.task r.pid = some t ∧
    x.2.1 = t.shmPtr ∧ x.1.task = s.advance r.pid t r.pages := by
  cases r with
  | share addr pages caller target =>
    obtain ⟨t, -, hs⟩ := Option.bind_eq_some_iff.mp hs
    obtain ⟨u, hu, hs⟩ := Option.bind_eq_some_iff.mp hs
    obtain ⟨m, -, rfl⟩ := Option.map_eq_some_iff.mp hs
    exact ⟨u, hu, rfl, rfl⟩
  | create pages caller =>
    obtain ⟨t, ht, hs⟩ := Option.bind_eq_some_iff.mp hs
    obtain ⟨m, -, rfl⟩ := Option.map_eq_some_iff.mp hs
    exact ⟨t, ht, rfl, rfl⟩

theorem Satisfiable.fits {t : MmInfo} (h : Satisfiable fuel s r) (ht : s.task r.pid = some t) :
    Fits t r.pages := by
  cases r with
  | share addr pages caller target =>
    obtain ⟨_, u, -, hu, hf, -⟩ := h
    obtain rfl := Option.some.inj (hu.symm.trans ht)
    exact hf
  | create pages caller =>
    obtain ⟨u, hu, hf, -⟩ := h
    obtain rfl := Option.some.inj (hu.symm.trans ht)
    exact hf

/-- The pages that are mapped for a request of `n` pages that fit. -/
theorem perform_addresses {t : MmInfo} {n : Nat} (hs : perform fuel s r = some x)
    (ht : s.task r.pid = some t) (hn : r.pages = n) (h4 : 4096 ∣ t.shmPtr)
    (hend : t.shmPtr + 4096 * n < 2 ^ 64) :
    ∀ y ∈ x.2.2, y.1 ∈ Set.Ico t.shmPtr (t.shmPtr + 4096 * n) := by
  cases r with
  | share addr pages caller target =>
    obtain rfl : pages = n := hn
    obtain ⟨t', -, hs⟩ := Option.bind_eq_some_iff.mp hs
    obtain ⟨u, hu, hs⟩ := Option.bind_eq_some_iff.mp hs
    obtain rfl := Option.some.inj (hu.symm.trans ht)
    obtain ⟨m, hm, rfl⟩ := Option.map_eq_some_iff.mp hs
    exact setMappingvv_addresses h4 (by omega) hm
  | create pages caller =>
    obtain rfl : pages = n := hn
    obtain ⟨u, hu, hs⟩ := Option.bind_eq_some_iff.mp hs
    obtain rfl := Option.some.inj (hu.symm.trans ht)
    obtain ⟨m, hm, rfl⟩ := Option.map_eq_some_iff.mp hs
    exact allocVpages_addresses h4 (by omega) hm

theorem perform_none (hs : perform fuel s r = some x) (h0 : r.pages ≤ 0) (h20 : 2 ^ 20 ∣ r.pages) :
    x.1.vm = s.vm ∧ x.2.2 = [] := by
  cases r with
  | share addr pages caller target =>
    obtain ⟨t, -, hs⟩ := Option.bind_eq_some_iff.mp hs
    obtain ⟨u, -, hs⟩ := Option.bind_eq_some_iff.mp hs
    obtain ⟨m, hm, rfl⟩ := Option.map_eq_some_iff.mp hs
    have h0 : pages.toNat = 0 := Int.toNat_of_nonpos h0
    rw [setMappingvv, h0] at hm
    obtain rfl := Option.some.inj hm
    exact ⟨rfl, rfl⟩
  | create pages caller =>
    obtain ⟨t, -, hs⟩ := Option.bind_eq_some_iff.mp hs
    obtain ⟨m, hm, rfl⟩ := Option.map_eq_some_iff.mp hs
    obtain rfl := Option.some.inj ((allocVpages_none h0 h20).symm.trans hm)
    exact ⟨rfl, rfl⟩

/-- An admissible request moves the pointer behind the pages that it maps. -/
theorem perform_admissible {t : MmInfo} (hs : perform fuel s r = some x)
    (ha : Admissible fuel s r) (ht : s.task r.pid = some t) (h4 : 4096 ∣ t.shmPtr)
    (hle : t.shmPtr ≤ t.shmEnd) (h64 : t.shmEnd < 2 ^ 64) :
    advance t.shmPtr r.pages = t.shmPtr + 4096 * r.pages.toNat ∧
      t.shmPtr + 4096 * r.pages.toNat ≤ t.shmEnd ∧
      ∀ y ∈ x.2.2, y.1 ∈ Set.Ico t.shmPtr (t.shmPtr + 4096 * r.pages.toNat) := by
  rcases ha with ⟨hsat, h19⟩ | ⟨-, -, h0, h20⟩
  · obtain ⟨h0, hfit⟩ := hsat.fits ht
    obtain ⟨n, hn⟩ := Int.eq_ofNat_of_zero_le h0
    have hnat : r.pages.toNat = n := by rw [hn]; rfl
    have hend : t.shmPtr + 4096 * n ≤ t.shmEnd := by omega
    rw [hnat, hn, advance_fits (by omega) (by omega)]
    exact ⟨rfl, hend, perform_addresses hs ht hn h4 (by omega)⟩
  · rw [advance_none (by omega) h20, Int.toNat_of_nonpos h0, (perform_none hs h0 h20).2]
    exact ⟨rfl, hle, by simp⟩

end Requests

/-! ### Runs -/

/-- What the admissible requests keep: what was handed out lies below the pointers. -/
structure AreasOk (s : Service) : Prop where
  pointer : ∀ pid t, s.mem.task pid = some t →
    4096 ∣ t.shmPtr ∧ t.shmStart ≤ t.shmPtr ∧ t.shmPtr ≤ t.shmEnd ∧ t.shmEnd < 2 ^ 64
  below : ∀ g ∈ s.given, ∃ t, s.mem.task g.pid = some t ∧ g.span ⊆ Set.Ico t.shmStart t.shmPtr
  apart : s.given.Pairwise fun g g' => g.pid = g'.pid → Disjoint g.span g'.span
  mapped : ∀ g ∈ s.given, ∀ a ∈ g.mapped, a ∈ g.span

section Served

variable {fuel : Nat} {s s' : Service} {r : Request}

theorem Fresh.areasOk (h : Fresh s) : AreasOk s := by
  obtain ⟨h0, ht⟩ := h
  refine ⟨fun pid t hp => ?_, by simp [h0], by simp [h0], by simp [h0]⟩
  obtain ⟨h4, hptr, hle, h64⟩ := ht pid t hp
  exact ⟨hptr ▸ h4, hptr.ge, hptr ▸ hle, h64⟩

theorem AreasOk.kept (h : AreasOk s) : AreasKept s := by
  refine ⟨fun g hg => ?_, h.apart, h.mapped⟩
  obtain ⟨t, ht, hsub⟩ := h.below g hg
  exact ⟨t, ht, hsub.trans (Set.Ico_subset_Ico_right (h.pointer g.pid t ht).2.2.1)⟩

theorem AreasOk.serve (h : AreasOk s) (ha : Admissible fuel s.mem r)
    (hs : serve fuel s r = some s') : AreasOk s' := by
  obtain ⟨x, hx, rfl⟩ := Option.map_eq_some_iff.mp hs
  obtain ⟨t, ht, hstart, htask⟩ := perform_task hx
  obtain ⟨h4, hlow, hle, h64⟩ := h.pointer r.pid t ht
  obtain ⟨hadv, hend, hmapped⟩ := perform_admissible hx ha ht h4 hle h64
  have hnew : x.1.task r.pid = some { t with shmPtr := t.shmPtr + 4096 * r.pages.toNat } := by
    rw [htask, TaskMem.advance, Function.update_self, hadv]
  have hold : ∀ pid, pid ≠ r.pid → x.1.task pid = s.mem.task pid := fun pid hp => by
    rw [htask, TaskMem.advance, Function.update_of_ne hp]
  refine ⟨fun pid u hu => ?_, fun g hg => ?_, ?_, ?_⟩
  · by_cases hp : pid = r.pid
    · subst hp
      obtain rfl := Option.some.inj (hnew.symm.trans hu)
      exact ⟨Nat.dvd_add h4 (Nat.dvd_mul_right _ _), by simp only; omega, hend, h64⟩
    · exact h.pointer pid u (by rw [← hold pid hp]; exact hu)
  · rcases List.mem_append.mp hg with hg | hg
    · obtain ⟨u, hu, hsub⟩ := h.below g hg
      by_cases hp : g.pid = r.pid
      · rw [hp] at hu ⊢
        obtain rfl := Option.some.inj (hu.symm.trans ht)
        exact ⟨_, hnew, hsub.trans (Set.Ico_subset_Ico_right (Nat.le_add_right _ _))⟩
      · exact ⟨u, by rw [hold g.pid hp]; exact hu, hsub⟩
    · obtain rfl := List.mem_singleton.mp hg
      refine ⟨_, hnew, ?_⟩
      rw [Handout.span, hstart]
      exact Set.Ico_subset_Ico_left hlow
  · refine List.pairwise_append.mpr ⟨h.apart, List.pairwise_singleton _ _, ?_⟩
    intro g hg g' hg' hp
    obtain rfl := List.mem_singleton.mp hg'
    obtain ⟨u, hu, hsub⟩ := h.below g hg
    rw [hp] at hu
    obtain rfl := Option.some.inj (hu.symm.trans ht)
    rw [Handout.span, Handout.span, hstart]
    refine Set.disjoint_left.mpr fun k hk hk' => ?_
    have hlt := (hsub hk).2
    have hge := hk'.1
    simp only at hge
    omega
  · intro g hg a hga
    rcases List.mem_append.mp hg with hg | hg
    · exact h.mapped g hg a hga
    · obtain rfl := List.mem_singleton.mp hg
      obtain ⟨y, hy, rfl⟩ := List.mem_map.mp hga
      rw [Handout.span, hstart]
      exact hmapped y hy

/-- As long as all requests are admissible, the ranges handed out lie in the areas of their
tasks and apart, and a request that cannot be satisfied changes nothing. -/
theorem shared_areas {rs : List Request} (h : Run Fresh (Guarded
    (fun s r => Admissible fuel s.mem r) fun s r s' => Shm.serve fuel s r = some s') rs s) :
    AreasKept s ∧ ∀ r s', Admissible fuel s.mem r → Shm.serve fuel s r = some s' →
      ¬ Satisfiable fuel s.mem r → s'.mem = s.mem := by
  have hok : AreasOk s := h.invariant (I := fun _ s => AreasOk s) (fun s hs => hs.areasOk)
    fun es s e s' hs hstep => hs.serve hstep.1 hstep.2
  refine ⟨hok.kept, fun r s' ha hs hsat => ?_⟩
  obtain ⟨x, hx, rfl⟩ := Option.map_eq_some_iff.mp hs
  obtain ⟨t, ht, -, htask⟩ := perform_task hx
  obtain ⟨-, -, hle, h64⟩ := hok.pointer r.pid t ht
  rcases ha with ⟨hyes, -⟩ | ⟨-, -, h0, h20⟩
  · exact absurd hyes hsat
  · have hsame : x.1.task = s.mem.task := by
      rw [htask, TaskMem.advance, advance_none (by omega) h20]
      refine (congrArg (update s.mem.task r.pid) ht.symm).trans (Function.update_eq_self _ _)
    have hvm := (perform_none hx h0 h20).1
    exact congrArg₂ TaskMem.mk hvm hsame

/-- One task, with the default area and eight free pages. -/
def oneTask : Service :=
  ⟨⟨eightPages, update (fun _ => none) 1 (some ⟨0x1000, 0x100000000, 0x200000000, 0x100000000⟩)⟩, []⟩

theorem oneTask_fresh : Fresh oneTask := by
  refine ⟨rfl, fun pid t ht => ?_⟩
  by_cases hp : pid = 1
  · subst hp
    obtain rfl := Option.some.inj ht
    decide
  · simp [oneTask, hp] at ht

/-- A page is created and shared with the task itself. -/
theorem shared_areas_two : ∃ s, [Request.create 1 1, .share 0x100000000 1 1 1].foldlM
      (Shm.serve 40) oneTask = some s ∧
    s.given.map (fun g => (g.start, g.pages)) = [(0x100000000, 1), (0x100001000, 1)] ∧
    AreasKept s := by
  obtain ⟨s₁, h₁⟩ := Option.isSome_iff_exists.mp
    (show (Shm.serve 40 oneTask (.create 1 1)).isSome by decide +kernel)
  have hpiece : (allocPiece 40 0x1000 eightPages (0, 0x100000000)).map
      (fun r => decide (r.2.2.length = 2 ^ 0)) = some true := by
    decide +kernel
  have hfirst : Admissible 40 oneTask.mem (.create 1 1) := by
    refine .inl ⟨⟨⟨0x1000, 0x100000000, 0x200000000, 0x100000000⟩, rfl, ⟨by decide, by decide⟩, ?_⟩,
      by decide⟩
    intro r hr
    have hr : allocPiece 40 0x1000 eightPages (0, 0x100000000) = some r := hr
    rw [hr] at hpiece
    exact ⟨⟨⟨3, by decide, by decide, by decide⟩, of_decide_eq_true (Option.some.inj hpiece)⟩, trivial⟩
  -- the page is mapped now, and so are the tables for the next one
  have hstate : (Shm.serve 40 oneTask (.create 1 1)).map (fun s => decide
      (s.mem.task 1 = some ⟨0x1000, 0x100000000, 0x200000000, 0x100001000⟩ ∧
        getPhysicalAddress s.mem.vm.tables 0x1000 (pageAt (0x100000000 / 4096 * 4096) 0) ≠ 0 ∧
        (setMappingvv 40 s.mem.vm 0x1000 0x100000000 0x1000 0x100001000 1 true true).map
          (fun r => r.2.1) = some true)) = some true := by
    decide +kernel
  rw [h₁] at hstate
  obtain ⟨htask, hsrc, hmap⟩ := of_decide_eq_true (Option.some.inj hstate)
  obtain ⟨r, hr, hr1⟩ := Option.map_eq_some_iff.mp hmap
  have hsecond : Admissible 40 s₁.mem (.share 0x100000000 1 1 1) := by
    refine .inl ⟨⟨_, _, htask, htask, ⟨by decide, by decide⟩, ?_, r, hr, hr1⟩, by decide⟩
    intro i hi
    obtain rfl : i = 0 := Nat.lt_one_iff.mp hi
    exact hsrc
  have hgiven : ([Request.create 1 1, .share 0x100000000 1 1 1].foldlM (Shm.serve 40) oneTask).map
      (fun s => s.given.map fun g => (g.start, g.pages)) =
        some [(0x100000000, 1), (0x100001000, 1)] := by
    decide +kernel
  obtain ⟨s, hs, hlist⟩ := Option.map_eq_some_iff.mp hgiven
  refine ⟨s, hs, hlist, ?_⟩
  have hs₂ : Shm.serve 40 s₁ (.share 0x100000000 1 1 1) = some s := by
    simpa [h₁] using hs
  exact (shared_areas (((Run.start oneTask_fresh).snoc ⟨hfirst, h₁⟩).snoc ⟨hsecond, hs₂⟩)).1

/-- After a request for -1 pages the last page is handed out again. -/
theorem shared_areas_overlap : ∃ rs s,
    Run Fresh (fun s r s' => Shm.serve 40 s r = some s') rs s ∧ ¬ AreasKept s := by
  have hgiven : ([Request.create 1 1, .share 0x100000000 (-1) 1 1, .create 1 1].foldlM
      (Shm.serve 40) oneTask).map (fun s => s.given.map fun g => (g.pid, g.start, g.pages)) =
        some [(1, 0x100000000, 1), (1, 0x100001000, -1), (1, 0x100000000, 1)] := by
    decide +kernel
  obtain ⟨s, hs, hlist⟩ := Option.map_eq_some_iff.mp hgiven
  refine ⟨_, s, Run.ofFold _ oneTask_fresh hs, fun hk => ?_⟩
  have hpair : (s.given.map fun g => (g.pid, g.start, g.pages)).Pairwise fun g g' =>
      g.1 = g'.1 → Disjoint (Set.Ico g.2.1 (g.2.1 + 4096 * g.2.2.toNat))
        (Set.Ico g'.2.1 (g'.2.1 + 4096 * g'.2.2.toNat)) := by
    rw [List.pairwise_map]
    exact hk.apart
  rw [hlist] at hpair
  have hd := (List.pairwise_cons.mp hpair).1 (1, 0x100000000, 1) (by simp) rfl
  have hmem : 0x100000000 ∈ Set.Ico 0x100000000 (0x100000000 + 4096 * (1 : Int).toNat) := by simp
  exact Set.disjoint_left.mp hd hmem hmem

end Served

end Shm

end TayHuang
