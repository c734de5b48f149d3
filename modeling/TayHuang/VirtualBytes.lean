import TayHuang.SegmentPages

/-! Bytes behind virtual addresses. What a new directory shows is described by a content: for
every address nothing, a byte that was written, or whatever was in the free frame. -/

namespace TayHuang

namespace Vm

open Function (update)
open Fuel Radix Tilings

variable {v v' : VMem} {l : List Seg} {L L' : Nat → List (Nat × Nat)} {fuel pgd : Nat}
  {bytes b g : Nat → UInt8} {m : List (Nat × Nat)}

/-! ### The loops -/

/-- The turns of `for (int i = 0 ; i < size ; i ++)` with a `size_t`: at `2 ^ 31` the counter
turns negative, and is no longer below the size. C leaves such a counter open, and the build
does not let it wrap: past `2 ^ 31` bytes this is a choice. -/
def intTurns (size : Nat) : Nat := min size (2 ^ 31)

theorem intTurns_spec {size : Nat} (h : size ≤ 2 ^ 64 - 2 ^ 31) :
    (∀ i < intTurns size, (Int.bmod i (2 ^ 32) % 2 ^ 64).toNat < size) ∧
      ¬ (Int.bmod (intTurns size) (2 ^ 32) % 2 ^ 64).toNat < size := by
  unfold intTurns
  refine ⟨fun i hi => ?_, ?_⟩
  · rw [Int.bmod_def]
    split <;> omega
  · rw [Int.bmod_def]
    split <;> omega

/-- The turns of a loop that writes a byte through the tables, from turn `i` on. Where the
page is not mapped, the byte goes to address 0. -/
def storeBytes (s : PTMem) (pgd dst : Nat) (val : (Nat → UInt8) → Nat → UInt8) :
    Nat → Nat → (Nat → UInt8) → Nat → UInt8
  | 0, _, b => b
  | n + 1, i, b => storeBytes s pgd dst val n (i + 1)
      (update b (getPhysicalAddress s pgd ((dst + i) % 2 ^ 64)) (val b i))

def vmemset (s : PTMem) (pgd addr : Nat) (val : UInt8) (size : Nat) (b : Nat → UInt8) :
    Nat → UInt8 :=
  storeBytes s pgd addr (fun _ _ => val) (intTurns size) 0 b

def pvmemcpy (s : PTMem) (dstPgd dst src size : Nat) (b : Nat → UInt8) : Nat → UInt8 :=
  storeBytes s dstPgd dst (fun b i => b ((src + i) % 2 ^ 64)) (intTurns size) 0 b

/-! ### Contents -/

/-- The content of a directory, with `F₀` the bytes that were free at first, `g` what was in
them, `F` those that are free now, and `b` what was elsewhere. -/
structure Shows (v : VMem) (pgd : Nat) (bytes b g : Nat → UInt8) (F₀ F : Set Nat)
    (V : Nat → Option (Option UInt8)) : Prop where
  unmapped : ∀ a < 2 ^ 47, V a = none → translation v.tables pgd a = none
  mapped : ∀ a < 2 ^ 47, ∀ c, V a = some c → ∃ pa, translation v.tables pgd a = some pa ∧
    bytes pa = c.getD (g pa) ∧ pa ∈ F₀ ∧ pa ∉ F
  apart : ∀ a a' pa, a < 2 ^ 47 → a' < 2 ^ 47 → translation v.tables pgd a = some pa →
    translation v.tables pgd a' = some pa → a = a'
  others : ∀ pa, pa ∉ F₀ → pa ≠ 0 → bytes pa = b pa
  fresh : ∀ pa ∈ F, bytes pa = g pa

variable {F₀ F : Set Nat} {V : Nat → Option (Option UInt8)}

/-- A byte is written where the page is mapped. -/
def written (V : Nat → Option (Option UInt8)) (dst : Nat) (w : Nat → UInt8) (i n a : Nat) :
    Option (Option UInt8) :=
  if dst + i ≤ a ∧ a < dst + i + n then (V a).map fun _ => some (w (a - dst)) else V a

theorem Shows.store (h : Shows v pgd bytes b g F₀ F V) (h0 : 0 ∉ F₀) (hF : F ⊆ F₀) {a : Nat}
    (ha : a < 2 ^ 47) (x : UInt8) :
    Shows v pgd (update bytes (getPhysicalAddress v.tables pgd a) x) b g F₀ F
      (update V a ((V a).map fun _ => some x)) := by
  rw [getPhysicalAddress_eq_getD]
  cases hV : V a with
  | none =>
    have hsame : update V a (Option.map (fun _ : Option UInt8 => some x) none) = V := by
      rw [Option.map_none, ← hV, Function.update_eq_self]
    rw [h.unmapped a ha hV, Option.getD_none, hsame]
    refine ⟨h.unmapped, fun a' ha' c hc => ?_, h.apart, fun pa hpa hne => ?_, fun pa hpa => ?_⟩
    · obtain ⟨pa, ht, hb, hin, hout⟩ := h.mapped a' ha' c hc
      have hne : pa ≠ 0 := fun he => h0 (he ▸ hin)
      exact ⟨pa, ht, by rw [Function.update_of_ne hne, hb], hin, hout⟩
    · rw [Function.update_of_ne hne, h.others pa hpa hne]
    · have hne : pa ≠ 0 := fun he => h0 (he ▸ hF hpa)
      rw [Function.update_of_ne hne, h.fresh pa hpa]
  | some c =>
    obtain ⟨pa, ht, -, hin, hout⟩ := h.mapped a ha c hV
    rw [ht, Option.getD_some, Option.map_some]
    refine ⟨fun a' ha' hnone => ?_, fun a' ha' c' hc' => ?_, h.apart, fun pa' hpa' hne => ?_,
      fun pa' hpa' => ?_⟩
    · by_cases he : a' = a
      · simp [he] at hnone
      · rw [Function.update_of_ne he] at hnone
        exact h.unmapped a' ha' hnone
    · by_cases he : a' = a
      · subst he
        rw [Function.update_self] at hc'
        obtain rfl := Option.some.inj hc'
        exact ⟨pa, ht, by simp, hin, hout⟩
      · rw [Function.update_of_ne he] at hc'
        obtain ⟨pa', ht', hb', hin', hout'⟩ := h.mapped a' ha' c' hc'
        have hne : pa' ≠ pa := fun hpa => he (h.apart a' a pa ha' ha (hpa ▸ ht') ht)
        exact ⟨pa', ht', by rw [Function.update_of_ne hne, hb'], hin', hout'⟩
    · have hpa : pa' ≠ pa := fun he => hpa' (he ▸ hin)
      rw [Function.update_of_ne hpa, h.others pa' hpa' hne]
    · have hpa : pa' ≠ pa := fun he => hout (he ▸ hpa')
      rw [Function.update_of_ne hpa, h.fresh pa' hpa']

theorem Shows.storeBytes (val : (Nat → UInt8) → Nat → UInt8) (w : Nat → UInt8) {dst n i : Nat}
    (h : Shows v pgd bytes b g F₀ F V) (h0 : 0 ∉ F₀) (hF : F ⊆ F₀) (htop : dst + i + n ≤ 2 ^ 47)
    (hval : ∀ c j, (∀ pa, pa ∉ F₀ → pa ≠ 0 → c pa = b pa) → j < i + n → val c j = w j) :
    Shows v pgd (storeBytes v.tables pgd dst val n i bytes) b g F₀ F (written V dst w i n) := by
  induction n generalizing i bytes V with
  | zero =>
    have hsame : written V dst w i 0 = V := by
      funext a
      rw [written, if_neg (by omega)]
    rw [hsame]
    exact h
  | succ n ih =>
    have hmod : (dst + i) % 2 ^ 64 = dst + i := Nat.mod_eq_of_lt (by omega)
    have hstep := h.store h0 hF (a := dst + i) (by omega) (w i)
    have hrest := ih (i := i + 1) hstep (by omega) fun c j hc hj => hval c j hc (by omega)
    have hsame : written (update V (dst + i) ((V (dst + i)).map fun _ => some (w i))) dst w (i + 1) n =
        written V dst w i (n + 1) := by
      funext a
      by_cases ha : a = dst + i
      · subst ha
        rw [written, if_neg (by omega), Function.update_self, written, if_pos (by omega)]
        congr 3
        funext _
        rw [Nat.add_sub_cancel_left]
      · rw [written, Function.update_of_ne ha, written]
        by_cases hin : dst + (i + 1) ≤ a ∧ a < dst + (i + 1) + n
        · rw [if_pos hin, if_pos (by omega)]
        · rw [if_neg hin, if_neg (by omega)]
    rw [hsame] at hrest
    rw [Vm.storeBytes, hmod, hval bytes i h.others (by omega)]
    exact hrest

/-! ### New frames -/

/-- The pages from `addr` on get frames, with whatever is in them. -/
def cleared (V : Nat → Option (Option UInt8)) (addr n a : Nat) : Option (Option UInt8) :=
  if addr ≤ a ∧ a < addr + 4096 * n then some none else V a

/-- The bytes of the free pages. -/
def free (L : Nat → List (Nat × Nat)) : Set Nat := {k | k ∈ bag (recorded L)}

/-- Each page of a served request is mapped to a frame of its own that was free, and
nothing else is. -/
theorem allocVpages_frames {addr n : Nat} (hok : DirsOk v l L [pgd]) (ha : 4096 ∣ addr)
    (htop : addr + 4096 * n ≤ 2 ^ 48) (hm : Served n m)
    (hs : allocVpages fuel v pgd addr (n : Nat) = some (v', m)) :
    ∃ l' L', DirsOk v' l' L' [pgd] ∧ free L' ⊆ free L ∧
      (∀ a < 2 ^ 47, ¬ (addr ≤ a ∧ a < addr + 4096 * n) →
        translation v'.tables pgd a = translation v.tables pgd a) ∧
      (∀ a < 2 ^ 47, addr ≤ a ∧ a < addr + 4096 * n →
        ∃ pa ∈ free L, translation v'.tables pgd a = some pa ∧ pa ∉ free L') ∧
      ∀ a a', a < 2 ^ 47 → a' < 2 ^ 47 → addr ≤ a ∧ a < addr + 4096 * n →
        addr ≤ a' ∧ a' < addr + 4096 * n →
          translation v'.tables pgd a = translation v'.tables pgd a' → a = a' := by
  obtain ⟨hfst, l', L', hok', hg⟩ := allocVpages_given hok (by simp) ha hm hs
  have honce := Multiset.nodup_of_le hg.left (nodup_of_accounted hok.account)
  have hbyte : ∀ x ∈ m, ∀ o < 4096, x.2 + o ∈ bag (frames m) := by
    intro x hx o ho
    refine mem_bag.mpr ⟨(0, x.2), Multiset.mem_coe.mpr (List.mem_map_of_mem hx), ?_⟩
    simp only [Tilings.span, Set.mem_Ico]
    omega
  have hnew : ∀ k ∈ bag (frames m), k ∈ free L ∧ k ∉ free L' := fun k hk =>
    ⟨Multiset.mem_of_le hg.left (Multiset.mem_add.mpr (.inl hk)),
      Multiset.disjoint_left.mp (Multiset.nodup_add.mp honce).2.2 hk⟩
  have hframe : ∀ x ∈ m, 4096 ∣ x.2 ∧ ofField (toField x.2) = x.2 := by
    intro x hx
    have h4 : 4096 ∣ x.2 := hg.paged (0, x.2) (Multiset.mem_coe.mpr (List.mem_map_of_mem hx))
    have hlow : x.2 < 2 ^ 39 := hok.low _ (hnew _ (hbyte x hx 0 (by omega))).1
    refine ⟨h4, ?_⟩
    rw [ofField_toField hlow]
    omega
  have hpage : ∀ x ∈ m, ∃ q < n, page x.1 = addr / 4096 + q := by
    intro x hx
    have hin : x.1 ∈ m.map Prod.fst := List.mem_map_of_mem hx
    rw [hfst] at hin
    obtain ⟨q, hq, he⟩ := List.mem_map.mp hin
    have hqn := List.mem_range.mp hq
    refine ⟨q, hqn, ?_⟩
    rw [← he, page]
    omega
  have hcases : ∀ a < 2 ^ 47,
      (¬ (addr ≤ a ∧ a < addr + 4096 * n) ∧
          translation v'.tables pgd a = translation v.tables pgd a) ∨
        (addr ≤ a ∧ a < addr + 4096 * n) ∧ ∃ x ∈ m, page a = page x.1 ∧
          translation v'.tables pgd a = some (x.2 + a % 4096) := by
    intro a hlt
    have hget := hg.mapped pgd (by simp) a
    rw [if_pos rfl] at hget
    rcases lastSet_cases m a with ⟨hno, hnone⟩ | ⟨p, f, hx, hap, hlast⟩
    · rw [hnone] at hget
      refine .inl ⟨fun hin => ?_, hget⟩
      have hq : (addr + 4096 * ((a - addr) / 4096)) % 2 ^ 64 ∈ m.map Prod.fst := by
        rw [hfst]
        refine List.mem_map.mpr ⟨(a - addr) / 4096, List.mem_range.mpr (by omega), rfl⟩
      obtain ⟨⟨p, f⟩, hx, he⟩ := List.mem_map.mp hq
      refine hno p f hx ?_
      rw [show p = _ from he, page, page]
      omega
    · rw [hlast] at hget
      simp only [(hframe _ hx).2] at hget
      obtain ⟨q, hq, hpq⟩ := hpage _ hx
      have hap' : a / 2 ^ 12 % 2 ^ 36 = addr / 4096 + q := hap.trans hpq
      exact .inr ⟨by omega, _, hx, hap, hget⟩
  have hframes : ∀ x ∈ m, ∀ y ∈ m, x.2 = y.2 → x.1 = y.1 := by
    have hapart := List.pairwise_map.mp (apart_of_nodup_bag (Multiset.nodup_add.mp honce).1)
    have hne : (m.map Prod.snd).Nodup := by
      refine List.pairwise_map.mpr (hapart.imp fun {x y} hd he => ?_)
      have hx : x.2 ∈ Tilings.span Prod.snd blockSize (0, x.2) := by simp [Tilings.span, blockSize]
      exact Set.disjoint_left.mp hd hx (he ▸ hx)
    exact fun x hx y hy he => congrArg Prod.fst (List.inj_on_of_nodup_map hne hx hy he)
  refine ⟨l', L', hok', fun k hk => Multiset.mem_of_le hg.left (Multiset.mem_add.mpr (.inr hk)),
    fun a hlt hout => ?_, fun a hlt hin => ?_, fun a a' hlt hlt' hin hin' he => ?_⟩
  · rcases hcases a hlt with ⟨-, hsame⟩ | ⟨hin, -⟩
    · exact hsame
    · exact absurd hin hout
  · rcases hcases a hlt with ⟨hout, -⟩ | ⟨-, x, hx, -, ht⟩
    · exact absurd hin hout
    · obtain ⟨h1, h2⟩ := hnew _ (hbyte x hx (a % 4096) (Nat.mod_lt _ (by decide)))
      exact ⟨_, h1, ht, h2⟩
  · obtain ⟨-, x, hx, hax, htx⟩ := (hcases a hlt).resolve_left fun hh => hh.1 hin
    obtain ⟨-, x', hx', hax', htx'⟩ := (hcases a' hlt').resolve_left fun hh => hh.1 hin'
    have hsum : x.2 + a % 4096 = x'.2 + a' % 4096 :=
      Option.some.inj (htx.symm.trans (he.trans htx'))
    have h4 := (hframe x hx).1
    have h4' := (hframe x' hx').1
    have hpages : page a = page a' := by
      rw [hax, hax', hframes x hx x' hx' (by omega)]
    unfold page at hpages
    omega

/-- What an address in use leads to was not free. -/
theorem Shows.used (h : Shows v pgd bytes b g F₀ F V) {a pa : Nat} (hlt : a < 2 ^ 47)
    (ht : translation v.tables pgd a = some pa) : pa ∉ F := by
  cases hV : V a with
  | none =>
    rw [h.unmapped a hlt hV] at ht
    simp at ht
  | some c =>
    obtain ⟨pa', ht', -, -, hnot⟩ := h.mapped a hlt c hV
    exact Option.some.inj (ht.symm.trans ht') ▸ hnot

theorem Shows.allocVpages {addr n : Nat} (h : Shows v pgd bytes b g F₀ (free L) V)
    (hok : DirsOk v l L [pgd]) (hF : free L ⊆ F₀) (ha : 4096 ∣ addr) (htop : addr + 4096 * n ≤ 2 ^ 48)
    (hm : Served n m) (hs : allocVpages fuel v pgd addr (n : Nat) = some (v', m)) :
    ∃ l' L', DirsOk v' l' L' [pgd] ∧ free L' ⊆ free L ∧
      Shows v' pgd bytes b g F₀ (free L') (cleared V addr n) := by
  obtain ⟨l', L', hok', hsub, hold, hnew, hone⟩ := allocVpages_frames hok ha htop hm hs
  refine ⟨l', L', hok', hsub, fun a hlt hnone => ?_, fun a hlt c hc => ?_,
    fun a a' pa hlt hlt' ht ht' => ?_, h.others, fun pa hpa => h.fresh pa (hsub hpa)⟩
  · rw [cleared] at hnone
    split at hnone
    · simp at hnone
    · next hout => rw [hold a hlt hout, h.unmapped a hlt hnone]
  · rw [cleared] at hc
    split at hc
    · next hin =>
      obtain rfl := Option.some.inj hc
      obtain ⟨pa, h1, ht, h2⟩ := hnew a hlt hin
      exact ⟨pa, ht, h.fresh _ h1, hF h1, h2⟩
    · next hout =>
      obtain ⟨pa, ht, hb, hin, hnot⟩ := h.mapped a hlt c hc
      exact ⟨pa, (hold a hlt hout).trans ht, hb, hin, fun hpa => hnot (hsub hpa)⟩
  · -- an old page and a new one have different frames
    have hmixed : ∀ a < 2 ^ 47, ∀ a' < 2 ^ 47, ¬ (addr ≤ a ∧ a < addr + 4096 * n) →
        addr ≤ a' ∧ a' < addr + 4096 * n →
          translation v'.tables pgd a = some pa → translation v'.tables pgd a' ≠ some pa := by
      intro a hlt a' hlt' hout hin ht ht'
      rw [hold a hlt hout] at ht
      obtain ⟨pa', h1, htx, -⟩ := hnew a' hlt' hin
      obtain rfl := Option.some.inj (htx.symm.trans ht')
      exact h.used hlt ht h1
    by_cases hin : addr ≤ a ∧ a < addr + 4096 * n
    · by_cases hin' : addr ≤ a' ∧ a' < addr + 4096 * n
      · exact hone a a' hlt hlt' hin hin' (ht.trans ht'.symm)
      · exact absurd ht (hmixed a' hlt' a hlt hin' hin ht')
    · by_cases hin' : addr ≤ a' ∧ a' < addr + 4096 * n
      · exact absurd ht' (hmixed a hlt a' hlt' hin hin' ht)
      · exact h.apart a a' pa hlt hlt' ((hold a hlt hin).symm.trans ht) ((hold a' hlt' hin').symm.trans ht')

end Vm

end TayHuang
