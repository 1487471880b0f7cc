import Mathlib.Data.List.Induction
import Mathlib.Data.Prod.Lex
import ChainPlanner.Assembly.Order

/-!
# ChainPlanner.Proofs.Build.Order

The order of slots is an order of numbers.  `Slot.rank` counts the pinned slots before the others,
and in each group the known positions before the unknown one; a slot goes before another exactly if
its rank is smaller.  So slots that arrive one after another are sorted by insertion: none is lost
(`inOrder_perm`), the ranks ascend (`pairwise_rank_inOrder`), and slots of one rank stand in the
order of their arrival (`filter_rank_inOrder`).  That is what a stable sort by rank gives
(`inOrder_eq_mergeSort`).
-/

namespace ChainPlanner.Assembly

namespace Slot

variable {a b : Slot}

/-- Where a slot belongs: the smaller the number, the further to the front.  The unknown position
ranks as the first number above all known ones. -/
def rank (a : Slot) : Int :=
  (if a.pinned then 0 else 4294967296) +
    (if 0 ≤ a.index.toInt then a.index.toInt else 2147483648)

/-- A slot goes before another exactly if its rank is smaller. -/
theorem goesBefore_iff : a.goesBefore b = true ↔ a.rank < b.rank := by
  have ha := a.index.toInt_lt
  have hb := b.index.toInt_lt
  cases hpa : a.pinned <;> cases hpb : b.pinned <;>
    simp only [goesBefore, rank, hpa, hpb, Int32.le_iff_toInt_le, Int32.lt_iff_toInt_lt,
      Int32.toInt_zero, Bool.and_eq_true, Bool.or_eq_true, decide_eq_true_eq] <;>
    grind

/-- Pinned slots rank before the others. -/
theorem pinned_of_rank_le (h : a.rank ≤ b.rank) (hb : b.pinned = true) : a.pinned = true := by
  have hlt := b.index.toInt_lt
  grind [rank]

/-- Among pinned slots with known positions it is the position that counts. -/
theorem index_le_of_rank_le (h : a.rank ≤ b.rank) (hb : b.pinned = true)
    (ha : 0 ≤ a.index.toInt) (hb' : 0 ≤ b.index.toInt) : a.index.toInt ≤ b.index.toInt := by
  have hpin := pinned_of_rank_le h hb
  simpa [rank, hpin, hb, ha, hb'] using h

end Slot

variable {slot x : Slot} {l : List Slot}

/-! ## one slot -/

/-- Insertion in order adds one slot. -/
theorem insertInOrder_perm (slot : Slot) (l : List Slot) :
    (insertInOrder slot l).Perm (slot :: l) := by
  fun_induction insertInOrder slot l with
  | case1 => rfl
  | case2 => rfl
  | case3 old rest _ ih => exact (ih.cons old).trans (.swap slot old rest)

/-- A slot that arrives keeps the ranks ascending. -/
theorem pairwise_rank_insertInOrder (slot : Slot) (h : l.Pairwise fun a b => a.rank ≤ b.rank) :
    (insertInOrder slot l).Pairwise fun a b => a.rank ≤ b.rank := by
  fun_induction insertInOrder slot l with
  | case1 => simp
  | case2 old rest hbefore =>
    rw [Slot.goesBefore_iff] at hbefore
    have hall : ∀ x ∈ old :: rest, slot.rank ≤ x.rank := by
      intro x hx
      rcases List.mem_cons.1 hx with rfl | hx
      · exact Int.le_of_lt hbefore
      · exact Int.le_trans (Int.le_of_lt hbefore) (List.rel_of_pairwise_cons h hx)
    exact h.cons hall
  | case3 old rest hbefore ih =>
    rw [Slot.goesBefore_iff, Int.not_lt] at hbefore
    refine (ih h.tail).cons fun x hx => ?_
    rcases List.mem_cons.1 ((insertInOrder_perm slot rest).mem_iff.1 hx) with rfl | hx
    · exact hbefore
    · exact List.rel_of_pairwise_cons h hx

/-! ## one slot after another -/

/-- Slots as they stand when they have arrived one after another. -/
def inOrder (slots : List Slot) : List Slot :=
  slots.foldl (fun l slot => insertInOrder slot l) []

/-- The last slot is inserted last. -/
theorem inOrder_concat (slots : List Slot) (slot : Slot) :
    inOrder (slots ++ [slot]) = insertInOrder slot (inOrder slots) := by
  simp [inOrder]

/-- Sorting keeps the slots. -/
theorem inOrder_perm (slots : List Slot) : (inOrder slots).Perm slots := by
  induction slots using List.reverseRecOn with
  | nil => rfl
  | append_singleton slots slot ih =>
    rw [inOrder_concat]
    have hslot := (insertInOrder_perm slot _).trans (ih.cons slot)
    exact hslot.trans (List.perm_append_singleton slot slots).symm

/-- Sorted slots come in the order of their ranks. -/
theorem pairwise_rank_inOrder (slots : List Slot) :
    (inOrder slots).Pairwise fun a b => a.rank ≤ b.rank := by
  induction slots using List.reverseRecOn with
  | nil => exact .nil
  | append_singleton slots slot ih =>
    rw [inOrder_concat]
    exact pairwise_rank_insertInOrder slot ih

/-- Pinned slots come before the others. -/
theorem pairwise_pinned_inOrder (slots : List Slot) :
    (inOrder slots).Pairwise fun a b => b.pinned = true → a.pinned = true :=
  (pairwise_rank_inOrder slots).imp Slot.pinned_of_rank_le

/-! ## stability -/

/-- A slot that arrives goes behind those of its rank. -/
theorem filter_rank_insertInOrder (slot : Slot) (h : l.Pairwise fun a b => a.rank ≤ b.rank)
    (k : Int) : (insertInOrder slot l).filter (·.rank = k) =
      l.filter (·.rank = k) ++ [slot].filter (·.rank = k) := by
  fun_induction insertInOrder slot l with
  | case1 => rfl
  | case2 old rest hbefore =>
    rw [Slot.goesBefore_iff] at hbefore
    rw [← List.singleton_append, List.filter_append]
    by_cases hk : slot.rank = k
    · -- no slot behind the new one has its rank
      have hnone : (old :: rest).filter (·.rank = k) = [] := by
        rw [List.filter_eq_nil_iff]
        intro x hx
        have hle : old.rank ≤ x.rank := by
          rcases List.mem_cons.1 hx with rfl | hx
          · exact Int.le_refl _
          · exact List.rel_of_pairwise_cons h hx
        simp only [decide_eq_true_eq]
        omega
      rw [hnone, List.append_nil, List.nil_append]
    · have hnone : [slot].filter (·.rank = k) = [] := by simpa using hk
      rw [hnone, List.nil_append, List.append_nil]
  | case3 old rest _ ih =>
    rw [List.filter_cons, List.filter_cons, ih h.tail]
    split <;> rfl

/-- Slots of one rank stand in the order of their arrival. -/
theorem filter_rank_inOrder (slots : List Slot) (k : Int) :
    (inOrder slots).filter (·.rank = k) = slots.filter (·.rank = k) := by
  induction slots using List.reverseRecOn with
  | nil => rfl
  | append_singleton slots slot ih =>
    rw [inOrder_concat, filter_rank_insertInOrder slot (pairwise_rank_inOrder slots), ih,
      List.filter_append]

section

variable {α β : Type} [LinearOrder β] {f : α → β} {l₁ l₂ : List α}

/-- Lists that agree key by key have the same members. -/
theorem mem_iff_of_filter_eq (h : ∀ k, l₁.filter (f · = k) = l₂.filter (f · = k)) (a : α) :
    a ∈ l₁ ↔ a ∈ l₂ := by
  have hrank : a ∈ l₁.filter (f · = f a) ↔ a ∈ l₂.filter (f · = f a) := by rw [h]
  simpa using hrank

/-- The first item of a sorted list is the least. -/
theorem head_le_of_pairwise {a b : α} (h : (a :: l₁).Pairwise fun a b => f a ≤ f b)
    (hb : b ∈ a :: l₁) : f a ≤ f b := by
  rcases List.mem_cons.1 hb with rfl | hb
  · exact le_refl _
  · exact List.rel_of_pairwise_cons h hb

/-- A list that ascends is known from its elements of each rank. -/
theorem eq_of_filter_eq (h₁ : l₁.Pairwise fun a b => f a ≤ f b)
    (h₂ : l₂.Pairwise fun a b => f a ≤ f b)
    (h : ∀ k, l₁.filter (f · = k) = l₂.filter (f · = k)) : l₁ = l₂ := by
  induction l₁ generalizing l₂ with
  | nil =>
    refine (List.eq_nil_iff_forall_not_mem.2 fun b hb => ?_).symm
    exact List.not_mem_nil ((mem_iff_of_filter_eq h b).2 hb)
  | cons a l₁ ih =>
    have ha := (mem_iff_of_filter_eq h a).1 List.mem_cons_self
    cases l₂ with
    | nil => exact absurd ha List.not_mem_nil
    | cons b l₂ =>
      have hb := (mem_iff_of_filter_eq h b).2 List.mem_cons_self
      have hsame : f b = f a :=
        le_antisymm (head_le_of_pairwise h₂ ha) (head_le_of_pairwise h₁ hb)
      -- both heads are the first elements of their rank
      have hheads := h (f a)
      rw [List.filter_cons_of_pos (by simp), List.filter_cons_of_pos (by simp [hsame]),
        List.cons.injEq] at hheads
      obtain ⟨rfl, -⟩ := hheads
      refine congrArg (a :: ·) (ih h₁.tail h₂.tail fun k => ?_)
      have hk := h k
      by_cases hak : f a = k <;> simpa [List.filter_cons, hak] using hk

/-- A merge sort by rank keeps the elements of each rank in their order. -/
theorem filter_mergeSort (f : α → β) (l : List α) (k : β) :
    (l.mergeSort fun a b => f a ≤ f b).filter (f · = k) = l.filter (f · = k) := by
  have hsorted : (l.filter (f · = k)).Pairwise fun a b => decide (f a ≤ f b) = true := by
    refine List.pairwise_of_forall_mem_list fun a ha b hb => ?_
    have hfa : f a = k := by simpa using (List.mem_filter.1 ha).2
    have hfb : f b = k := by simpa using (List.mem_filter.1 hb).2
    simp [hfa, hfb]
  have hsub : (l.filter (f · = k)).Sublist (l.mergeSort fun a b => f a ≤ f b) :=
    List.sublist_mergeSort (fun a b c => by simpa using le_trans)
      (fun a b => by simpa using le_total _ _) hsorted List.filter_sublist
  have hlength := ((List.mergeSort_perm l fun a b => f a ≤ f b).filter (f · = k)).length_eq
  have hrank := hsub.filter (f · = k)
  simp only [List.filter_filter, Bool.and_self] at hrank
  exact (hrank.eq_of_length hlength.symm).symm

/-- A merge sort sorts. -/
theorem pairwise_mergeSort_rank (f : α → β) (l : List α) :
    (l.mergeSort fun a b => f a ≤ f b).Pairwise fun a b => f a ≤ f b := by
  have h : (l.mergeSort fun a b => f a ≤ f b).Pairwise fun a b => decide (f a ≤ f b) = true :=
    List.pairwise_mergeSort (fun a b c => by simpa using le_trans)
      (fun a b => by simpa using le_total _ _) l
  simpa using h

end

/-- Slots that arrive one after another are sorted by rank, and the sort is stable. -/
theorem inOrder_eq_mergeSort (slots : List Slot) :
    inOrder slots = slots.mergeSort fun a b => a.rank ≤ b.rank :=
  eq_of_filter_eq (pairwise_rank_inOrder slots) (pairwise_mergeSort_rank Slot.rank slots)
    fun k => (filter_rank_inOrder slots k).trans (filter_mergeSort Slot.rank slots k).symm

/-! ## the order as a key -/

/-- What decides where a slot belongs, the first difference deciding: whether it is unpinned,
whether its position is unknown, and its position if that is known. -/
def Slot.key (a : Slot) : Bool ×ₗ Bool ×ₗ Nat :=
  toLex (!a.pinned, toLex (decide (a.index < 0), a.index.toInt.toNat))

/-- Ranks and keys put slots in the same order. -/
theorem Slot.rank_le_rank_iff {a b : Slot} : a.rank ≤ b.rank ↔ a.key ≤ b.key := by
  have ha := a.index.toInt_lt
  have hb := b.index.toInt_lt
  have hunknown : ∀ i : Int, i < 0 ↔ ¬0 ≤ i := fun i => Int.not_le.symm
  simp only [rank, key, Prod.Lex.toLex_le_toLex, Int32.lt_iff_toInt_lt, Int32.toInt_zero, hunknown]
  generalize a.index.toInt = i at ha
  generalize b.index.toInt = j at hb
  by_cases hi : 0 ≤ i <;> by_cases hj : 0 ≤ j <;> cases a.pinned <;> cases b.pinned <;>
    simp only [hi, hj] <;> simp [Bool.lt_iff] <;> omega

/-- Slots that arrive one after another stand as a stable sort by their keys puts them.  None is
lost and none doubled; the keys ascend, and slots of one key stand in the order of their arrival;
and there is no other list of which the last two can be said. -/
theorem insertion_sorts_stably (slots : List Slot) :
    (slots.foldl (fun l slot => insertInOrder slot l) []).Perm slots ∧
    slots.foldl (fun l slot => insertInOrder slot l) [] =
      slots.mergeSort (fun a b => decide (a.key ≤ b.key)) ∧
    ∀ l, l = slots.foldl (fun l slot => insertInOrder slot l) [] ↔
      l.Pairwise (fun a b => a.key ≤ b.key) ∧
        ∀ k, l.filter (·.key = k) = slots.filter (·.key = k) := by
  have hsort : inOrder slots = slots.mergeSort fun a b => a.key ≤ b.key := by
    simp only [inOrder_eq_mergeSort, Slot.rank_le_rank_iff]
  have hascends := pairwise_mergeSort_rank Slot.key slots
  have hstable := filter_mergeSort Slot.key slots
  rw [← hsort] at hascends hstable
  refine ⟨inOrder_perm slots, hsort, fun l => ⟨?_, ?_⟩⟩
  · rintro rfl
    exact ⟨hascends, hstable⟩
  · rintro ⟨hl, hfilter⟩
    exact eq_of_filter_eq hl hascends fun k => (hfilter k).trans (hstable k).symm

end ChainPlanner.Assembly
