import Mathlib.Logic.Function.Basic
import Mathlib.Data.List.Basic

/-! Linked lists laid out in a memory of cells. A list of contents is related
to the cells that hold it, with the links written out as the pointers found in
memory, so that pointer updates become list operations. -/

namespace LinkedCells

variable {α β γ : Type*}

/-- The pointer under which a list is entered; `exit` when it is empty. -/
def entry (addr : γ → α) (l : List γ) (exit : Option α) : Option α :=
  (l.head?.map addr).or exit

/-- The pointer to the last cell of a list; `prev` when it is empty. -/
def leave (addr : γ → α) (prev : Option α) (l : List γ) : Option α :=
  (l.getLast?.map addr).or prev

@[simp] theorem entry_nil (addr : γ → α) (exit : Option α) : entry addr [] exit = exit := rfl

@[simp] theorem entry_cons (addr : γ → α) (x : γ) (l : List γ) (exit : Option α) :
    entry addr (x :: l) exit = some (addr x) := rfl

@[simp] theorem entry_append (addr : γ → α) (l r : List γ) (exit : Option α) :
    entry addr (l ++ r) exit = entry addr l (entry addr r exit) := by
  cases l <;> simp [entry]

@[simp] theorem leave_nil (addr : γ → α) (prev : Option α) : leave addr prev [] = prev := rfl

@[simp] theorem leave_cons (addr : γ → α) (prev : Option α) (x : γ) (l : List γ) :
    leave addr prev (x :: l) = leave addr (some (addr x)) l := by
  cases l with
  | nil => rfl
  | cons y l => simp [leave, List.getLast?_eq_getLast_of_ne_nil]

@[simp] theorem leave_append (addr : γ → α) (prev : Option α) (l r : List γ) :
    leave addr prev (l ++ r) = leave addr (leave addr prev l) r := by
  induction l generalizing prev with
  | nil => rfl
  | cons x l ih => simp [ih]

/-! ### Singly linked lists -/

/-- The cells of `l` hold its contents, each linked to the following one. -/
def Chained (addr : γ → α) (cell : γ → Option α → β) (m : α → β) : List γ → Option α → Prop
  | [], _ => True
  | x :: l, exit => m (addr x) = cell x (entry addr l exit) ∧ Chained addr cell m l exit

section Chained

variable {addr : γ → α} {cell : γ → Option α → β} {m m' : α → β}

theorem chained_append {l r : List γ} {exit : Option α} :
    Chained addr cell m (l ++ r) exit ↔
      Chained addr cell m l (entry addr r exit) ∧ Chained addr cell m r exit := by
  induction l with
  | nil => simp [Chained]
  | cons x l ih => simp [Chained, ih, and_assoc]

theorem Chained.congr {l : List γ} {exit : Option α} (h : Chained addr cell m l exit)
    (he : ∀ x ∈ l, m' (addr x) = m (addr x)) : Chained addr cell m' l exit := by
  induction l with
  | nil => trivial
  | cons x l ih =>
    exact ⟨(he x (by simp)).trans h.1, ih h.2 (fun y hy => he y (by simp [hy]))⟩

theorem Chained.update [DecidableEq α] {l : List γ} {exit : Option α} {a : α} {v : β}
    (h : Chained addr cell m l exit) (ha : a ∉ l.map addr) :
    Chained addr cell (Function.update m a v) l exit := by
  apply h.congr
  intro x hx
  apply Function.update_of_ne
  rintro rfl
  exact ha (List.mem_map_of_mem hx)

theorem Chained.link_of_mem {l : List γ} {exit : Option α} {x : γ}
    (h : Chained addr cell m l exit) (hx : x ∈ l) :
    ∃ pre post, l = pre ++ x :: post ∧ m (addr x) = cell x (entry addr post exit) := by
  obtain ⟨pre, post, rfl⟩ := List.append_of_mem hx
  exact ⟨pre, post, rfl, (chained_append.mp h).2.1⟩

/-- A chain without exit is determined by the pointer to its first cell. -/
theorem Chained.unique {l l' : List γ} (h : Chained addr cell m l none)
    (h' : Chained addr cell m l' none) (he : entry addr l none = entry addr l' none)
    (hinj : ∀ x y n n', addr x = addr y → cell x n = cell y n' → x = y ∧ n = n') : l = l' := by
  induction l generalizing l' with
  | nil =>
    cases l' with
    | nil => rfl
    | cons y l' => simp at he
  | cons x l ih =>
    cases l' with
    | nil => simp at he
    | cons y l' =>
      have hxy : addr x = addr y := by simpa using he
      obtain ⟨rfl, hn⟩ := hinj x y _ _ hxy (by rw [← h.1, hxy, h'.1])
      rw [ih h.2 h'.2 hn]

end Chained

/-! ### Doubly linked lists -/

/-- The cells of `l` hold its contents, each linked to both neighbours. -/
def Linked (addr : γ → α) (cell : γ → Option α → Option α → β) (m : α → β) :
    Option α → List γ → Option α → Prop
  | _, [], _ => True
  | prev, x :: l, exit =>
    m (addr x) = cell x prev (entry addr l exit) ∧ Linked addr cell m (some (addr x)) l exit

section Linked

variable {addr : γ → α} {cell : γ → Option α → Option α → β} {m m' : α → β}

theorem linked_append {l r : List γ} {prev exit : Option α} :
    Linked addr cell m prev (l ++ r) exit ↔
      Linked addr cell m prev l (entry addr r exit) ∧
        Linked addr cell m (leave addr prev l) r exit := by
  induction l generalizing prev with
  | nil => simp [Linked]
  | cons x l ih => simp [Linked, ih, and_assoc]

theorem Linked.congr {l : List γ} {prev exit : Option α} (h : Linked addr cell m prev l exit)
    (he : ∀ x ∈ l, m' (addr x) = m (addr x)) : Linked addr cell m' prev l exit := by
  induction l generalizing prev with
  | nil => trivial
  | cons x l ih =>
    exact ⟨(he x (by simp)).trans h.1, ih h.2 (fun y hy => he y (by simp [hy]))⟩

theorem Linked.update [DecidableEq α] {l : List γ} {prev exit : Option α} {a : α} {v : β}
    (h : Linked addr cell m prev l exit) (ha : a ∉ l.map addr) :
    Linked addr cell (Function.update m a v) prev l exit := by
  apply h.congr
  intro x hx
  apply Function.update_of_ne
  rintro rfl
  exact ha (List.mem_map_of_mem hx)

/-- A list without exit is determined by the pointer to its first cell. -/
theorem Linked.unique {l l' : List γ} {prev : Option α} (h : Linked addr cell m prev l none)
    (h' : Linked addr cell m prev l' none) (he : entry addr l none = entry addr l' none)
    (hinj : ∀ x y p n n', addr x = addr y → cell x p n = cell y p n' → x = y ∧ n = n') : l = l' := by
  induction l generalizing l' prev with
  | nil =>
    cases l' with
    | nil => rfl
    | cons y l' => simp at he
  | cons x l ih =>
    cases l' with
    | nil => simp at he
    | cons y l' =>
      have hxy : addr x = addr y := by simpa using he
      obtain ⟨rfl, hn⟩ := hinj x y _ _ _ hxy (by rw [← h.1, hxy, h'.1])
      rw [ih h.2 h'.2 hn]

theorem Linked.next_last {l : List γ} {prev : Option α} (hl : Linked addr cell m prev l none)
    {next last : β → Option α}
    (hnext : ∀ x p n, next (cell x p n) = n) (hlast : ∀ x p n, last (cell x p n) = p)
    {x : γ} (hx : x ∈ l) {b : α} (hb : next (m (addr x)) = some b) :
    b ∈ l.map addr ∧ last (m b) = some (addr x) := by
  induction l generalizing prev with
  | nil => simp at hx
  | cons y l ih =>
    rcases List.mem_cons.mp hx with rfl | hx
    · cases l with
      | nil => simp [hl.1, hnext] at hb
      | cons z l =>
        rw [hl.1, hnext, entry_cons, Option.some.injEq] at hb
        subst hb
        exact ⟨by simp, by rw [hl.2.1, hlast]⟩
    · have hh := ih hl.2 hx
      exact ⟨List.mem_cons_of_mem _ hh.1, hh.2⟩

end Linked

/-! ### Queues with a head and a tail pointer -/

/-- `head` and `tail` delimit the chain of `next` pointers through `l`. -/
structure IsQueue (next : α → Option α) (head tail : Option α) (l : List α) : Prop where
  head_eq : head = l.head?
  tail_eq : tail = l.getLast?
  nodup : l.Nodup
  chained : Chained id (fun _ n => n) next l none

section Queue

variable {next : α → Option α} {head tail : Option α} {l : List α}

theorem isQueue_nil : IsQueue next none none [] :=
  ⟨rfl, rfl, List.nodup_nil, trivial⟩

theorem IsQueue.head_none_iff (h : IsQueue next head tail l) : head = none ↔ l = [] := by
  rw [h.head_eq, List.head?_eq_none_iff]

theorem IsQueue.tail_none_iff (h : IsQueue next head tail l) : tail = none ↔ l = [] := by
  rw [h.tail_eq, List.getLast?_eq_none_iff]

theorem IsQueue.congr {next' : α → Option α} (h : IsQueue next head tail l)
    (he : ∀ x ∈ l, next' x = next x) : IsQueue next' head tail l :=
  ⟨h.head_eq, h.tail_eq, h.nodup, h.chained.congr he⟩

variable [DecidableEq α]

theorem IsQueue.push {t x : α} (h : IsQueue next head (some t) l) (hx : x ∉ l) :
    IsQueue (Function.update (Function.update next x none) t (some x)) head (some x)
      (l ++ [x]) := by
  obtain ⟨r, hr⟩ := List.getLast?_eq_some_iff.mp h.tail_eq.symm
  subst hr
  have hn := h.nodup
  have ht : t ∉ r := fun hm => (List.nodup_append.mp hn).2.2 t hm t (by simp) rfl
  have hxt : x ≠ t := fun he => hx (by simp [he])
  have hxr : x ∉ r := fun hm => hx (by simp [hm])
  refine ⟨?_, by simp, ?_, ?_⟩
  · rw [h.head_eq]
    cases r <;> simp
  · refine List.nodup_append.mpr ⟨hn, by simp, ?_⟩
    intro y hy z hz he
    rw [List.mem_singleton.mp hz] at he
    exact hx (he ▸ hy)
  · have hc := chained_append.mp h.chained
    rw [List.append_assoc, List.singleton_append, chained_append]
    refine ⟨?_, ?_, ?_, trivial⟩
    · exact (hc.1.update (by simpa using hxr)).update (by simpa using ht)
    · simp
    · simp [hxt]

theorem isQueue_singleton (next : α → Option α) (x : α) :
    IsQueue (Function.update next x none) (some x) (some x) [x] :=
  ⟨rfl, rfl, by simp, by simp, trivial⟩

theorem IsQueue.pop {x : α} (h : IsQueue next head tail (x :: l)) :
    next x = l.head? ∧
      IsQueue (Function.update next x none) (next x) (if next x = none then none else tail) l := by
  have hnx : next x = l.head? := by simpa [entry] using h.chained.1
  have hxl := (List.nodup_cons.mp h.nodup).1
  refine ⟨hnx, hnx, ?_, (List.nodup_cons.mp h.nodup).2, h.chained.2.update (by simpa using hxl)⟩
  rw [hnx, h.tail_eq]
  cases l with
  | nil => simp
  | cons y l => simp [List.getLast?_cons_cons]

end Queue

end LinkedCells
