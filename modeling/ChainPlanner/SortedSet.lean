/-!
# ChainPlanner.SortedSet

Finite sets as strictly ascending lists, so that two sets are equal exactly when they have the
same members (`ext_mem`).  `mem_insert`, `mem_erase` and `mem_insertMany` say what the operations
do to membership.
-/

namespace ChainPlanner

/-- A finite set, listed in strictly ascending order. -/
structure SortedSet (α : Type) [Ord α] where
  toList : List α
  ascending : toList.Pairwise fun a b => compare a b = .lt
  deriving DecidableEq

namespace SortedSet

variable {α : Type} [Ord α]

/-- The set without members. -/
def empty : SortedSet α := ⟨[], .nil⟩

instance : EmptyCollection (SortedSet α) := ⟨empty⟩
instance : Inhabited (SortedSet α) := ⟨empty⟩
instance : Membership α (SortedSet α) := ⟨fun s a => a ∈ s.toList⟩

theorem mem_def {s : SortedSet α} {a : α} : a ∈ s ↔ a ∈ s.toList := Iff.rfl

instance [DecidableEq α] (a : α) (s : SortedSet α) : Decidable (a ∈ s) :=
  inferInstanceAs (Decidable (a ∈ s.toList))

/-- The number of members. -/
def size (s : SortedSet α) : Nat := s.toList.length

/-- Whether there is no member. -/
def isEmpty (s : SortedSet α) : Bool := s.toList.isEmpty

/-- An element put into an ascending list at its place, unless it is there. -/
def insertSorted (a : α) : List α → List α
  | [] => [a]
  | b :: bs => match compare a b with
    | .lt => a :: b :: bs
    | .eq => b :: bs
    | .gt => b :: insertSorted a bs

section Laws

variable [Std.TransOrd α] [Std.LawfulEqOrd α]

omit [Std.TransOrd α] in
/-- Membership after an insertion in order. -/
theorem mem_insertSorted {a x : α} {bs : List α} :
    x ∈ insertSorted a bs ↔ x = a ∨ x ∈ bs := by
  fun_induction insertSorted a bs with
  | case1 => simp
  | case2 => simp
  | case3 b bs h =>
    have : a = b := Std.LawfulEqOrd.eq_of_compare h
    grind
  | case4 b bs h ih => grind

/-- Insertion in order keeps a list strictly ascending. -/
theorem pairwise_insertSorted {a : α} {bs : List α}
    (h : bs.Pairwise fun x y => compare x y = .lt) :
    (insertSorted a bs).Pairwise fun x y => compare x y = .lt := by
  fun_induction insertSorted a bs with
  | case1 => simp
  | case2 b bs hab =>
    refine .cons (fun y hy => ?_) h
    rcases List.mem_cons.1 hy with rfl | hy
    · exact hab
    · exact Std.TransCmp.lt_trans hab (List.rel_of_pairwise_cons h hy)
  | case3 => exact h
  | case4 b bs hab ih =>
    refine .cons (fun y hy => ?_) (ih h.tail)
    rcases mem_insertSorted.1 hy with rfl | hy
    · exact Std.OrientedCmp.lt_of_gt hab
    · exact List.rel_of_pairwise_cons h hy

/-- Add an element. -/
def insert (s : SortedSet α) (a : α) : SortedSet α :=
  ⟨insertSorted a s.toList, pairwise_insertSorted s.ascending⟩

/-- Add every element of a list. -/
def insertMany (s : SortedSet α) (as : List α) : SortedSet α := as.foldl insert s

/-- The set of a list's elements. -/
def ofList (as : List α) : SortedSet α := insertMany ∅ as

/-- Every element of either set. -/
def union (s t : SortedSet α) : SortedSet α := s.insertMany t.toList

omit [Std.TransOrd α] [Std.LawfulEqOrd α] in
@[simp] theorem not_mem_empty (a : α) : a ∉ (∅ : SortedSet α) := List.not_mem_nil

/-- Membership after an insertion. -/
theorem mem_insert {s : SortedSet α} {a x : α} : x ∈ s.insert a ↔ x = a ∨ x ∈ s :=
  mem_insertSorted

/-- Membership after many insertions. -/
theorem mem_insertMany {s : SortedSet α} {as : List α} {x : α} :
    x ∈ s.insertMany as ↔ x ∈ as ∨ x ∈ s := by
  unfold insertMany
  induction as generalizing s with
  | nil => simp
  | cons a as ih => grind [mem_insert]

/-- The members of a set made from a list are those of the list. -/
theorem mem_ofList {as : List α} {x : α} : x ∈ ofList as ↔ x ∈ as := by
  rw [ofList, mem_insertMany]
  simp

/-- Membership in a union. -/
theorem mem_union {s t : SortedSet α} {x : α} : x ∈ s.union t ↔ x ∈ t ∨ x ∈ s :=
  mem_insertMany

end Laws

/-- Take an element out. -/
def erase [DecidableEq α] (s : SortedSet α) (a : α) : SortedSet α :=
  ⟨s.toList.filter (· ≠ a), s.ascending.filter _⟩

/-- Membership after an item has been taken out. -/
theorem mem_erase [DecidableEq α] {s : SortedSet α} {a x : α} :
    x ∈ s.erase a ↔ x ≠ a ∧ x ∈ s := by
  simp [mem_def, erase, and_comm]

private theorem eq_of_mem_iff [Std.TransOrd α] [Std.LawfulEqOrd α] {as bs : List α}
    (ha : as.Pairwise fun x y => compare x y = .lt)
    (hb : bs.Pairwise fun x y => compare x y = .lt) (h : ∀ x, x ∈ as ↔ x ∈ bs) : as = bs := by
  induction as generalizing bs with
  | nil =>
    cases bs with
    | nil => rfl
    | cons b bs => exact absurd ((h b).2 List.mem_cons_self) List.not_mem_nil
  | cons a as ih =>
    cases bs with
    | nil => exact absurd ((h a).1 List.mem_cons_self) List.not_mem_nil
    | cons b bs =>
      have irrefl : ∀ x : α, compare x x ≠ .lt := fun x hx => by
        rw [Std.compare_self] at hx; exact absurd hx (by decide)
      have asymm : ∀ x y : α, compare x y = .lt → compare y x = .lt → False := fun x y h₁ h₂ =>
        irrefl x (Std.TransCmp.lt_trans h₁ h₂)
      have hab : a = b := by
        rcases List.mem_cons.1 ((h a).1 List.mem_cons_self) with rfl | hab
        · rfl
        rcases List.mem_cons.1 ((h b).2 List.mem_cons_self) with rfl | hba
        · rfl
        exact (asymm a b (List.rel_of_pairwise_cons ha hba)
          (List.rel_of_pairwise_cons hb hab)).elim
      subst hab
      refine congrArg (a :: ·) (ih ha.tail hb.tail fun x => ?_)
      have hx := h x
      constructor
      · intro hm
        rcases List.mem_cons.1 (hx.1 (List.mem_cons_of_mem a hm)) with rfl | hm'
        · exact (irrefl _ (List.rel_of_pairwise_cons ha hm)).elim
        · exact hm'
      · intro hm
        rcases List.mem_cons.1 (hx.2 (List.mem_cons_of_mem a hm)) with rfl | hm'
        · exact (irrefl _ (List.rel_of_pairwise_cons hb hm)).elim
        · exact hm'

/-- A set is its members. -/
theorem ext_mem [Std.TransOrd α] [Std.LawfulEqOrd α] {s t : SortedSet α}
    (h : ∀ x, x ∈ s ↔ x ∈ t) : s = t := by
  have := eq_of_mem_iff s.ascending t.ascending h
  cases s; cases t; simpa using this

end SortedSet

end ChainPlanner
