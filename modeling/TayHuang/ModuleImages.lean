import TayHuang.SegmentContents
import TayHuang.PagePool

/-! What a module finds in its memory after it was loaded. -/

namespace TayHuang

namespace Vm

open Function (update)
open Fuel Radix Tilings

variable {v : VMem} {l : List Seg} {L : Nat → List (Nat × Nat)} {fuel : Nat}
  {b : Nat → UInt8} {addr size : Nat} {hs : List Elf64Phdr}

theorem createPgd_shows {v' : VMem} {pgd : Nat} (hacc : Accounted v.kmem l L [])
    (hpaged : Paged (recorded L)) (hlow : ∀ k ∈ bag (recorded L), k < 2 ^ 39) (h0 : pgd ≠ 0)
    (hs : createPgd fuel v = some (v', pgd)) : ∃ l' L', DirsOk v' l' L' [pgd] ∧ free L' ⊆ free L ∧
      ∀ d, (∀ a, a ∉ free L → d a = b a) → Shows v' pgd d b d (free L) (free L') fun _ => none := by
  obtain ⟨⟨s', f⟩, hx, hs⟩ := Option.map_eq_some_iff.mp hs
  obtain ⟨rfl, rfl⟩ := Prod.mk.inj hs
  obtain ⟨j, hf⟩ : ∃ j, Found L 0 j := by
    refine exists_found ?_
    by_contra hno
    have hnone : ∀ i ≤ 9, v.kmem.listHead i = none := by
      intro i hi
      have hempty : L i = [] := by
        by_contra hne
        exact hno ⟨i, Nat.zero_le i, hi, hne⟩
      rw [hacc.lists.head i hi, hempty]
      rfl
    obtain ⟨-, he⟩ := Prod.mk.inj (Option.some.inj ((allocPages_none hnone fuel).symm.trans hx))
    exact h0 he.symm
  obtain ⟨l', L', hacc', hpaged', -, hle⟩ := allocPages_account hacc hpaged hf hx
  have honce := Multiset.nodup_of_le hle (nodup_of_accounted hacc)
  have hsub : bag (recorded L') ≤ bag (recorded L) := (Multiset.le_add_left _ _).trans hle
  have hnot : f ∉ bag (recorded L') :=
    Multiset.disjoint_left.mp (Multiset.nodup_add.mp honce).2.2 (by simp)
  have hempty : ∀ r ∈ [f], ∀ i, ((update v.entry f fun _ => PageEntry.zero) r i).p = false := by
    intro r hr i
    rw [List.mem_singleton.mp hr, Function.update_self]
    rfl
  have hok : DirsOk ⟨s', update v.entry f fun _ => .zero⟩ l' L' [f] :=
    .fresh hacc' hpaged' (fun k hk => hlow k (Multiset.mem_of_le hsub hk)) hempty
      (fun r hr => List.mem_singleton.mp hr ▸ hnot) (by simpa using h0.symm)
  have hnone (a : Nat) : translation (VMem.tables ⟨s', update v.entry f fun _ => .zero⟩) f a = none := by
    rw [translation_eq (s := VMem.tables _) hok.nulled (by simp)]
    have hw : walk (descend [f] (update v.entry f fun _ => PageEntry.zero)) none (f :: upper a) = none := by
      cases hw : walk (descend [f] (update v.entry f fun _ => PageEntry.zero)) none (f :: upper a) with
      | none => rfl
      | some x =>
        rcases walk_fresh hempty hw with ⟨he, -⟩ | ⟨r, -, he, -⟩
        · simp at he
        · simp [upper] at he
    simp only [VMem.tables]
    rw [hw, Option.bind_none]
  refine ⟨l', L', hok, fun k hk => Multiset.mem_of_le hsub hk, fun d hd =>
    ⟨fun a _ _ => hnone a, ?_, ?_, fun pa hpa _ => hd pa hpa, fun _ _ => rfl⟩⟩
  · intro a _ c hc
    simp at hc
  · intro a a' pa _ _ ht
    rw [hnone a] at ht
    simp at ht

theorem mappingKernel_above {v' : VMem} {pgd : Nat} {ok : Bool} {m : List (Nat × Nat)}
    (h : DirsOk v l L [pgd]) (hs : mappingKernel fuel v pgd = some (v', ok, m)) {a : Nat}
    (ha : 0x2000000 ≤ a) (htop : a < 2 ^ 47) :
    translation v'.tables pgd a = translation v.tables pgd a := by
  rw [mappingKernel, setMapping] at hs
  obtain ⟨-, hmap, hfst, hlen, -⟩ := mapPages_remapped h (by simp) hs
  have hget := hmap pgd (by simp) a
  rw [if_pos rfl] at hget
  rcases lastSet_cases m a with ⟨-, hnone⟩ | ⟨p, f, hx, hap, -⟩
  · rw [hnone] at hget
    exact hget
  · have hin : p ∈ m.map Prod.fst := List.mem_map_of_mem (f := Prod.fst) hx
    rw [hfst] at hin
    obtain ⟨j, hj, rfl⟩ := List.mem_map.mp hin
    have hjm := (List.mem_range'_1.mp hj).2
    have hlt : j < 8192 := by
      simp only [Int.toNat_natCast] at hlen
      omega
    rw [pageAt, page, page] at hap
    omega

/-- What a module promises of its image: its bytes, its limits, and a heap behind them. -/
structure Faithful (b : Nat → UInt8) (addr : Nat) (s : LoadMem) (info : ProgramInfo) : Prop where
  bytes : ∀ h ∈ loads b addr, ∀ k < h.pMemsz,
    (translation s.vm.tables info.pgd (h.pVaddr + k)).map s.bytes = some (want b addr h k)
  start : (∀ h ∈ loads b addr, info.start ≤ h.pVaddr) ∧
    (loads b addr ≠ [] → ∃ h ∈ loads b addr, info.start = h.pVaddr)
  end_ : (∀ h ∈ loads b addr, h.pVaddr + h.pMemsz ≤ info.end_) ∧
    (loads b addr ≠ [] → ∃ h ∈ loads b addr, info.end_ = h.pVaddr + h.pMemsz)
  heap : 4096 ∣ info.heapBottom ∧ 4096 ∣ info.heapTop ∧ info.end_ < info.heapBottom ∧
    info.heapBottom < info.heapTop

theorem foldl_limits (hu : ∀ h ∈ hs, h.pVaddr + h.pMemsz ≤ 2 ^ 47) (lim : Nat × Nat) :
    (∀ h ∈ hs, (hs.foldl limits lim).1 ≤ h.pVaddr ∧
        h.pVaddr + h.pMemsz ≤ (hs.foldl limits lim).2) ∧
      ((hs.foldl limits lim).1 = lim.1 ∨ ∃ h ∈ hs, (hs.foldl limits lim).1 = h.pVaddr) ∧
      ((hs.foldl limits lim).2 = lim.2 ∨ ∃ h ∈ hs, (hs.foldl limits lim).2 = h.pVaddr + h.pMemsz) ∧
      (hs.foldl limits lim).1 ≤ lim.1 ∧ lim.2 ≤ (hs.foldl limits lim).2 := by
  induction hs generalizing lim with
  | nil => simp
  | cons h hs ih =>
    obtain ⟨hall, hstart, hend, hle, hge⟩ := ih (fun k hk => hu k (List.mem_cons_of_mem _ hk)) (limits lim h)
    rw [List.foldl_cons]
    have h1 : (limits lim h).1 = min lim.1 h.pVaddr := rfl
    have h2 : (limits lim h).2 = max lim.2 (h.pVaddr + h.pMemsz) := rfl
    refine ⟨fun k hk => ?_, ?_, ?_, by omega, by omega⟩
    · rcases List.mem_cons.mp hk with rfl | hk
      · exact ⟨by omega, by omega⟩
      · exact hall k hk
    · rcases hstart with he | ⟨k, hk, he⟩
      · rcases Nat.le_total lim.1 h.pVaddr with hc | hc
        · exact .inl (by omega)
        · exact .inr ⟨h, List.mem_cons_self, by omega⟩
      · exact .inr ⟨k, List.mem_cons_of_mem _ hk, he⟩
    · rcases hend with he | ⟨k, hk, he⟩
      · rcases Nat.le_total (h.pVaddr + h.pMemsz) lim.2 with hc | hc
        · exact .inl (by omega)
        · exact .inr ⟨h, List.mem_cons_self, by omega⟩
      · exact .inr ⟨k, List.mem_cons_of_mem _ hk, he⟩

/-- The limits of segments in user space are those of some segments. -/
theorem limits_tight (hu : ∀ h ∈ hs, h.pVaddr + h.pMemsz ≤ 2 ^ 47) (ha : ∀ h ∈ hs, 0x2000000 ≤ h.pVaddr)
    {lim : Nat × Nat} (hlim : lim = hs.foldl limits (2 ^ 64 - 1, 0)) :
    ((∀ h ∈ hs, lim.1 ≤ h.pVaddr) ∧ (hs ≠ [] → ∃ h ∈ hs, lim.1 = h.pVaddr)) ∧
      ((∀ h ∈ hs, h.pVaddr + h.pMemsz ≤ lim.2) ∧ (hs ≠ [] → ∃ h ∈ hs, lim.2 = h.pVaddr + h.pMemsz)) ∧
      lim.2 ≤ 2 ^ 47 := by
  obtain ⟨hall, hstart, hend, -, -⟩ := foldl_limits hu (2 ^ 64 - 1, 0)
  rw [← hlim] at hall hstart hend
  refine ⟨⟨fun h hh => (hall h hh).1, fun hne => ?_⟩, ⟨fun h hh => (hall h hh).2, fun hne => ?_⟩, ?_⟩
  · obtain ⟨h, hh⟩ := List.exists_mem_of_ne_nil _ hne
    have h1 := (hall h hh).1
    have h2 := hu h hh
    exact hstart.resolve_left fun he => by omega
  · obtain ⟨h, hh⟩ := List.exists_mem_of_ne_nil _ hne
    have h1 := (hall h hh).2
    have h2 := ha h hh
    exact hend.resolve_left fun he => by omega
  · rcases hend with he | ⟨h, hh, he⟩
    · omega
    · have h2 := hu h hh
      omega

/-- A byte that a free frame holds whatever it held before was written there. -/
theorem written_of_held {F : Set Nat} {c : Option UInt8} {pa : Nat} {x : UInt8} (hin : pa ∈ F)
    (h : ∀ d : Nat → UInt8, (∀ a, a ∉ F → d a = b a) → c.getD (d pa) = x) : c = some x := by
  cases c with
  | some y => exact congrArg some (h b fun _ _ => rfl)
  | none =>
    have hother := h (update b pa (x + 1)) fun a ha => by
      have hne : a ≠ pa := fun he => ha (he ▸ hin)
      rw [Function.update_of_ne hne]
    rw [Option.getD_none, Function.update_self] at hother
    simp at hother

section Load

variable {s' : LoadMem} {info : ProgramInfo} {maps : List (Elf64Phdr × List (Nat × Nat))}

theorem Segments.loadable (hseg : Segments (loads b addr))
    (him : InMemory b addr size (free L)) : ∀ h ∈ loads b addr, Loadable b addr size h :=
  fun h hh => ⟨hseg.fits h hh, hseg.user h hh, hseg.room h hh, him.files h hh⟩

/-- The translations, the bytes and the limits after a module was loaded, whatever was in the
free pages. -/
theorem load_content (hacc : Accounted v.kmem l L []) (hpaged : Paged (recorded L))
    (hlow : ∀ k ∈ bag (recorded L), k < 2 ^ 39) (him : InMemory b addr size (free L))
    (hseg : Segments (loads b addr))
    (hs : loadKmodFromMemory fuel ⟨v, b⟩ addr = some (s', info, maps)) (hpgd : info.pgd ≠ 0)
    (hm : AllServed maps) :
    (∀ a, 0x2000000 ≤ a → a < 2 ^ 47 → allContent b addr (loads b addr) (fun _ => none) a = none →
        translation s'.vm.tables info.pgd a = none) ∧
      (∀ d, (∀ a, a ∉ free L → d a = b a) → ∃ d',
        loadKmodFromMemory fuel ⟨v, d⟩ addr = some (⟨s'.vm, d'⟩, info, maps) ∧
          ∀ a c, 0x2000000 ≤ a → a < 2 ^ 47 →
            allContent b addr (loads b addr) (fun _ => none) a = some c → ∃ pa ∈ free L,
              translation s'.vm.tables info.pgd a = some pa ∧ d' pa = c.getD (d pa)) ∧
      (info.start, info.end_) = (loads b addr).foldl limits (2 ^ 64 - 1, 0) ∧
      info.heapBottom = (info.end_ + 2 * 4096 + 4095) % 2 ^ 64 / 4096 * 4096 ∧
      info.heapTop = (info.heapBottom + 0x10000) % 2 ^ 64 := by
  have h0 : 0 ∉ free L := fun hz => hacc.null (by
    rw [Multiset.coe_nil, add_zero]
    exact hz)
  obtain ⟨⟨v₁, pgd⟩, hx, hs⟩ := Option.bind_eq_some_iff.mp hs
  obtain ⟨⟨⟨v₂, b₂⟩, lim, maps₂⟩, hy, hs⟩ := Option.bind_eq_some_iff.mp hs
  obtain ⟨⟨v₃, ok, m⟩, hz, hs⟩ := Option.map_eq_some_iff.mp hs
  simp only [Prod.mk.injEq] at hs
  obtain ⟨rfl, rfl, rfl⟩ := hs
  obtain ⟨l₁, L₁, ok₁, hsub₁, hsh₁⟩ := createPgd_shows (b := b) hacc hpaged hlow hpgd hx
  have hfrom : loadsFrom b addr 0 (ePhnum b addr - 0) = loads b addr := by
    rw [loadsFrom, loads, Nat.sub_zero, List.range_eq_range']
  have hloop {d d' : Nat → UInt8} (hd : ∀ a, a ∉ free L → d a = b a)
      (hrun : loadSegments fuel addr pgd fuel 0 ⟨v₁, d⟩ (2 ^ 64 - 1, 0) =
        some (⟨v₂, d'⟩, lim, maps₂)) :=
    loadSegments_shows (hsh₁ d hd) ok₁ hsub₁ h0 him (hseg.loadable him) (Nat.zero_le _) (by decide) hm
      hrun
  rw [hfrom] at hloop
  obtain ⟨⟨hlim, l₂, L₂, ok₂, -, hsh₂⟩, htwin⟩ := hloop (fun _ _ => rfl) hy
  refine ⟨fun a ha htop hnone => ?_, fun d hd => ?_, hlim, rfl, rfl⟩
  · rw [mappingKernel_above ok₂ hz ha htop]
    exact hsh₂.unmapped a htop hnone
  · obtain ⟨d', hd'⟩ := htwin d hd
    have hentry : eEntry d addr = eEntry b addr := by
      have hh := him.header
      unfold eEntry
      exact readNum_same (o := 24) (fun k h1 h2 => hd k (him.reserved k h1 h2)) him.top (by omega)
    refine ⟨d', ?_, fun a c ha htop hc => ?_⟩
    · rw [loadKmodFromMemory, hx, Option.bind_some, hd', Option.bind_some, hz, Option.map_some, hentry]
    · obtain ⟨⟨-, l₃, L₃, ok₃, -, hsh₃⟩, -⟩ := hloop hd hd'
      obtain ⟨pa, ht, hb, hin, -⟩ := hsh₃.mapped a htop c hc
      exact ⟨pa, hin, (mappingKernel_above ok₃ hz ha htop).trans ht, hb⟩

/-- Where every load is faithful, each byte of a segment was written. -/
theorem wanted_of_faithful (hacc : Accounted v.kmem l L []) (hpaged : Paged (recorded L))
    (hlow : ∀ k ∈ bag (recorded L), k < 2 ^ 39) (him : InMemory b addr size (free L))
    (hseg : Segments (loads b addr))
    (hs : loadKmodFromMemory fuel ⟨v, b⟩ addr = some (s', info, maps)) (hpgd : info.pgd ≠ 0)
    (hm : AllServed maps)
    (hall : ∀ d, (∀ a, a ∉ free L → d a = b a) → ∃ t, loadKmodFromMemory fuel ⟨v, d⟩ addr =
      some (t, info, maps) ∧ Faithful b addr t info)
    {h : Elf64Phdr} {k : Nat} (hh : h ∈ loads b addr) (hk : k < h.pMemsz) :
    allContent b addr (loads b addr) (fun _ => none) (h.pVaddr + k) =
      some (some (want b addr h k)) := by
  obtain ⟨hnone, hsome, -⟩ := load_content hacc hpaged hlow him hseg hs hpgd hm
  have ha : 0x2000000 ≤ h.pVaddr + k := Nat.le_add_right_of_le (hseg.above h hh)
  have hlt : h.pVaddr + k < 2 ^ 47 := by
    have huser := hseg.user h hh
    omega
  have hread : ∀ d, (∀ a, a ∉ free L → d a = b a) → ∃ d',
      loadKmodFromMemory fuel ⟨v, d⟩ addr = some (⟨s'.vm, d'⟩, info, maps) ∧
        (translation s'.vm.tables info.pgd (h.pVaddr + k)).map d' = some (want b addr h k) := by
    intro d hd
    obtain ⟨t, ht, hf⟩ := hall d hd
    obtain ⟨d', hd', -⟩ := hsome d hd
    obtain rfl := (Prod.mk.inj (Option.some.inj (hd'.symm.trans ht))).1
    exact ⟨d', hd', hf.bytes h hh k hk⟩
  cases hc : allContent b addr (loads b addr) (fun _ => none) (h.pVaddr + k) with
  | none =>
    obtain ⟨d', -, hbyte⟩ := hread b fun _ _ => rfl
    rw [hnone _ ha hlt hc] at hbyte
    simp at hbyte
  | some c =>
    obtain ⟨b', -, hmem⟩ := hsome b fun _ _ => rfl
    obtain ⟨pa, hin, htr, -⟩ := hmem _ c ha hlt hc
    refine congrArg some (written_of_held (F := {a | a ∈ free L}) (b := b) hin fun d hd => ?_)
    obtain ⟨d', hd', hbyte⟩ := hread d hd
    obtain ⟨d'', hd'', hmem⟩ := hsome d hd
    obtain rfl := congrArg LoadMem.bytes (Prod.mk.inj (Option.some.inj (hd''.symm.trans hd'))).1
    obtain ⟨pa', -, htr', hpa'⟩ := hmem _ c ha hlt hc
    obtain rfl := Option.some.inj (htr.symm.trans htr')
    rw [htr] at hbyte
    rw [← hpa']
    exact Option.some.inj hbyte

/-- A module is loaded faithfully, whatever is in the free pages, if and only if its segments
are well placed. -/
theorem load_faithful (hacc : Accounted v.kmem l L []) (hpaged : Paged (recorded L))
    (hlow : ∀ k ∈ bag (recorded L), k < 2 ^ 39) (him : InMemory b addr size (free L))
    (hseg : Segments (loads b addr))
    (hs : loadKmodFromMemory fuel ⟨v, b⟩ addr = some (s', info, maps)) (hpgd : info.pgd ≠ 0)
    (hm : AllServed maps) :
    (∀ d, (∀ a, a ∉ free L → d a = b a) → ∃ t, loadKmodFromMemory fuel ⟨v, d⟩ addr =
        some (t, info, maps) ∧ Faithful b addr t info) ↔ Placed (loads b addr) := by
  constructor
  · intro hall
    have hwant {h : Elf64Phdr} {k : Nat} (hh : h ∈ loads b addr) (hk : k < h.pMemsz) :
        allContent b addr (loads b addr) (fun _ => none) (h.pVaddr + k) =
          some (some (want b addr h k)) :=
      wanted_of_faithful hacc hpaged hlow him hseg hs hpgd hm hall hh hk
    refine ⟨fun pre h post he k hk => ?_, fun h hh => ?_⟩
    · have hin := hwant (h := h) (by rw [he]; simp) hk
      rw [he] at hin
      exact ((allContent_inside b addr (he ▸ hseg) hk).mp hin).1
    · obtain ⟨pre, post, he⟩ := List.append_of_mem hh
      refine (covered_iff (hseg.fits h hh)).mp fun k hk => ?_
      have hin := hwant hh hk
      rw [he] at hin
      exact ((allContent_inside b addr (he ▸ hseg) hk).mp hin).2
  · intro hplaced d hd
    obtain ⟨-, hsome, hlim, hbottom, htop⟩ := load_content hacc hpaged hlow him hseg hs hpgd hm
    obtain ⟨d', hd', hmem⟩ := hsome d hd
    obtain ⟨hstart, hend, hsmall⟩ := limits_tight hseg.user hseg.above hlim
    refine ⟨_, hd', fun h hh k hk => ?_, hstart, hend, ?_⟩
    · obtain ⟨pre, post, he⟩ := List.append_of_mem hh
      have ha := hseg.above h hh
      have hlt := hseg.user h hh
      have hcov := (covered_iff (hseg.fits h hh)).mpr (hplaced.sizes h hh) k hk
      have hin := (allContent_inside b addr (he ▸ hseg) hk).mpr
        ⟨hplaced.pages pre h post he k hk, hcov⟩
      rw [← he] at hin
      obtain ⟨pa, -, htr, hpa⟩ := hmem _ _ (by omega) (by omega) hin
      rw [htr]
      exact congrArg some hpa
    · simp only at hsmall
      rw [htop, hbottom]
      omega

end Load

/-! ### An unaligned segment -/

/-- An image at 64 KiB with one segment: one byte, 16 bytes behind the start of a page. -/
def unalignedImage (a : Nat) : UInt8 :=
  match a - 0x10000 with
  | 32 => 64
  | 54 => 56
  | 56 => 1
  | 64 => 1
  | 72 => 120
  | 80 => 16
  | 83 => 2
  | 96 => 1
  | 104 => 1
  | _ => 0

def pagePool : VMem := ⟨poolHeap 32, fun _ _ => .zero⟩

theorem loads_unaligned : loads unalignedImage 0x10000 = [⟨1, 120, 0x2000010, 1, 1⟩] := by
  decide +kernel

theorem pagePool_low : ∀ k ∈ bag (recorded (poolLists 32)), k < 2 ^ 39 := by
  intro k hk
  rw [bag_poolLists, Multiset.mem_Ico] at hk
  omega

theorem unaligned_inMemory : InMemory unalignedImage 0x10000 128 (free (poolLists 32)) := by
  refine ⟨by decide, by decide, fun k h1 h2 hk => ?_, by decide, by decide +kernel, by decide +kernel,
    fun h hh => ?_⟩
  · have hmem : k ∈ bag (recorded (poolLists 32)) := hk
    rw [bag_poolLists, Multiset.mem_Ico] at hmem
    omega
  · rw [loads_unaligned, List.mem_singleton] at hh
    subst hh
    decide

theorem unaligned_segments : Segments (loads unalignedImage 0x10000) := by
  rw [loads_unaligned]
  exact ⟨by simp, by simp, by simp, by simp, by simp⟩

/-- The load of the segment gets all that it asks for, and leaves single pages. -/
theorem unaligned_loaded : ((createPgd 8 pagePool).bind fun c =>
    (loadSegments 8 0x10000 c.2 8 0 ⟨c.1, unalignedImage⟩ (2 ^ 64 - 1, 0)).map fun r =>
      decide (c.2 ≠ 0 ∧ (∀ i ∈ List.range 10, 1 ≤ i → r.1.vm.kmem.listHead i = none) ∧
        ∀ x ∈ r.2.2, x.2.length = pagesOf x.1 ∧ ∀ y ∈ x.2, y.2 ≠ 0)) = some true := by
  decide +kernel

theorem unaligned_run : ∃ s' info maps,
    loadKmodFromMemory 8 ⟨pagePool, unalignedImage⟩ 0x10000 = some (s', info, maps) ∧
      info.pgd ≠ 0 ∧ AllServed maps := by
  obtain ⟨c, hc, hrest⟩ := Option.bind_eq_some_iff.mp unaligned_loaded
  obtain ⟨r, hr, hd⟩ := Option.map_eq_some_iff.mp hrest
  obtain ⟨hpgd, hheads, hserved⟩ := of_decide_eq_true hd
  have honly : OnlyPages r.1.vm.kmem := fun i hi hi9 =>
    hheads i (List.mem_range.mpr (by omega)) hi
  obtain ⟨v', ok, m, hm⟩ := mapPages_only c.2 (fun _ i => pageAt 0 i) true false (0 / 4096 * 4096)
    (0x2000000 / 4096) 0 honly 8
  have hkernel : mappingKernel 8 r.1.vm c.2 = some (v', ok, m) := by
    rw [mappingKernel, setMapping, Int.toNat_natCast]
    exact hm
  refine ⟨_, _, r.2.2, by
    rw [loadKmodFromMemory, hc, Option.bind_some, hr, Option.bind_some, hkernel, Option.map_some],
    hpgd, fun x hx _ => hserved x hx⟩
theorem load_faithful_unaligned : ∃ s' info maps,
    loadKmodFromMemory 8 ⟨pagePool, unalignedImage⟩ 0x10000 = some (s', info, maps) ∧
      ((∀ d, (∀ a, a ∉ free (poolLists 32) → d a = unalignedImage a) → ∃ t,
        loadKmodFromMemory 8 ⟨pagePool, d⟩ 0x10000 = some (t, info, maps) ∧
          Faithful unalignedImage 0x10000 t info) ↔ Placed (loads unalignedImage 0x10000)) := by
  obtain ⟨s', info, maps, hs, hpgd, hm⟩ := unaligned_run
  exact ⟨s', info, maps, hs, load_faithful (poolHeap_account (by decide) (by decide)) poolLists_paged
    pagePool_low unaligned_inMemory unaligned_segments hs hpgd hm⟩

/-- The page of the byte is not mapped. -/
theorem load_unaligned : ∃ v l L b addr size fuel s' info maps,
    Accounted v.kmem l L [] ∧ InMemory b addr size (free L) ∧ Segments (loads b addr) ∧
      loadKmodFromMemory fuel ⟨v, b⟩ addr = some (s', info, maps) ∧ info.pgd ≠ 0 ∧ AllServed maps ∧
        ¬ Faithful b addr s' info := by
  obtain ⟨s', info, maps, hs, hpgd, hm⟩ := unaligned_run
  have hacc : Accounted pagePool.kmem (poolSegs 32) (poolLists 32) [] :=
    poolHeap_account (by decide) (by decide)
  refine ⟨pagePool, poolSegs 32, poolLists 32, unalignedImage, 0x10000, 128, 8, s', info, maps, hacc,
    unaligned_inMemory, unaligned_segments, hs, hpgd, hm, fun hf => ?_⟩
  obtain ⟨hnone, -⟩ := load_content hacc poolLists_paged pagePool_low unaligned_inMemory
    unaligned_segments hs hpgd hm
  have hread := hf.bytes ⟨1, 120, 0x2000010, 1, 1⟩ (by rw [loads_unaligned]; simp) 0 (by decide)
  rw [hnone _ (by decide) (by decide) (by rw [loads_unaligned]; decide)] at hread
  simp at hread

end Vm

end TayHuang
