/-
# Sorted collections

Inserting into an ascending list and sorting keep the elements; an ascending
list has each of them once.  So what is built by insertions depends on the
elements alone, and a sorted list on their multiset if no two of them tie.
Where some tie, sorting keeps their order, and so commutes with selecting.

What is needed of the comparison are its laws, which compound comparisons have
from their parts.
-/
import ContractCalls.Ordered
import Mathlib.Data.List.Permutation
import Mathlib.Data.List.Sort

namespace ContractCalls.Ordered

variable {α β : Type}

instance transCmp_lexically {first next : Comparison α} [Std.TransCmp first] [Std.TransCmp next] :
    Std.TransCmp (lexically first next) :=
  inferInstanceAs (Std.TransCmp (compareLex first next))

instance transCmp_comparing [Ord β] [Std.TransOrd β] {key : α → β} :
    Std.TransCmp (comparing key) :=
  inferInstanceAs (Std.TransCmp (compareOn key))

theorem lexically_eq {first next : Comparison α} {a b : α} :
    lexically first next a b = .eq ↔ first a b = .eq ∧ next a b = .eq := by
  simp [lexically, Ordering.then_eq_eq]

theorem comparing_eq [Ord β] [Std.LawfulEqOrd β] {key : α → β} {a b : α} :
    comparing key a b = .eq ↔ key a = key b := Std.LawfulEqOrd.compare_eq_iff_eq

/-- The elements of the list come in order, each once. -/
def Ascending (order : Comparison α) (xs : List α) : Prop := xs.Pairwise fun a b => order a b = .lt

theorem Ascending.nodup {order : Comparison α} [Std.ReflCmp order] {xs : List α}
    (h : Ascending order xs) : xs.Nodup := by
  refine h.imp fun {a b} hab heq => ?_
  have hself : order b b = .eq := Std.ReflCmp.compare_self
  rw [heq, hself] at hab
  cases hab

theorem mem_sort {order : Comparison α} {xs : List α} {x : α} : x ∈ sort order xs ↔ x ∈ xs :=
  List.mem_mergeSort

theorem mem_insert {order : Comparison α} [Std.LawfulEqCmp order] {x y : α} {xs : List α} :
    y ∈ insert order x xs ↔ y = x ∨ y ∈ xs := by
  induction xs with
  | nil => simp [insert]
  | cons z zs ih =>
      unfold insert
      split
      · simp
      · have hxz : x = z := Std.LawfulEqCmp.eq_of_compare ‹order x z = .eq›
        subst hxz
        simp
      · simp only [List.mem_cons, ih]
        constructor
        · rintro (h | h | h)
          · exact Or.inr (Or.inl h)
          · exact Or.inl h
          · exact Or.inr (Or.inr h)
        · rintro (h | h | h)
          · exact Or.inr (Or.inl h)
          · exact Or.inl h
          · exact Or.inr (Or.inr h)

theorem Ascending.insert {order : Comparison α} [Std.TransCmp order] [Std.LawfulEqCmp order]
    {xs : List α} (h : Ascending order xs) (x : α) : Ascending order (insert order x xs) := by
  induction xs with
  | nil => exact List.pairwise_singleton _ x
  | cons z zs ih =>
      obtain ⟨hz, hzs⟩ := List.pairwise_cons.mp h
      unfold Ordered.insert
      split
      · rename_i hlt
        refine List.pairwise_cons.mpr ⟨fun y hy => ?_, h⟩
        rcases List.mem_cons.mp hy with rfl | hy
        · exact hlt
        · exact Std.TransCmp.lt_trans hlt (hz y hy)
      · exact h
      · rename_i hgt
        refine List.pairwise_cons.mpr ⟨fun y hy => ?_, ih hzs⟩
        rcases mem_insert.mp hy with rfl | hy
        · exact Std.OrientedCmp.lt_of_gt hgt
        · exact hz y hy

/-- Adding elements one by one. -/
theorem mem_foldl_insert {order : Comparison α} [Std.LawfulEqCmp order] {y : α} :
    ∀ {xs set : List α}, y ∈ xs.foldl (fun set x => insert order x set) set ↔ y ∈ set ∨ y ∈ xs := by
  intro xs
  induction xs with
  | nil => simp
  | cons x xs ih =>
      intro set
      rw [List.foldl_cons, ih, mem_insert, List.mem_cons]
      tauto

theorem Ascending.foldl_insert {order : Comparison α} [Std.TransCmp order]
    [Std.LawfulEqCmp order] :
    ∀ {xs set : List α}, Ascending order set →
      Ascending order (xs.foldl (fun set x => Ordered.insert order x set) set) := by
  intro xs
  induction xs with
  | nil => exact fun h => h
  | cons x xs ih => exact fun h => ih (h.insert x)

/-- An ascending list is determined by its elements. -/
theorem Ascending.eq_of_mem_iff {order : Comparison α} [Std.TransCmp order] {xs ys : List α}
    (hx : Ascending order xs) (hy : Ascending order ys) (h : ∀ x, x ∈ xs ↔ x ∈ ys) : xs = ys := by
  refine List.Perm.eq_of_pairwise ?_ hx hy ((List.perm_ext_iff_of_nodup hx.nodup hy.nodup).2 h)
  intro a b _ _ hab hba
  have hgt := Std.OrientedCmp.gt_of_lt hab
  rw [hba] at hgt
  cases hgt

/-- Inserting elements one by one gives the same list whatever their order. -/
theorem foldl_insert_perm {order : Comparison α} [Std.TransCmp order] [Std.LawfulEqCmp order]
    {xs ys set : List α} (hset : Ascending order set) (h : xs.Perm ys) :
    xs.foldl (fun set x => insert order x set) set =
      ys.foldl (fun set x => insert order x set) set :=
  hset.foldl_insert.eq_of_mem_iff hset.foldl_insert fun x => by
    rw [mem_foldl_insert, mem_foldl_insert, h.mem_iff]

section Sorting

variable {order : Comparison α} [Std.TransCmp order]

theorem isLE_trans (a b c : α) : (order a b).isLE = true → (order b c).isLE = true →
    (order a c).isLE = true :=
  Std.TransCmp.isLE_trans

theorem isLE_total (a b : α) : ((order a b).isLE || (order b a).isLE) = true := by
  have hswap : order b a = (order a b).swap := Std.OrientedCmp.eq_swap
  rw [hswap]
  cases order a b <;> rfl

/-- The elements of a sorted list come in order. -/
theorem pairwise_sort (xs : List α) : (sort order xs).Pairwise fun a b => (order a b).isLE :=
  List.pairwise_mergeSort isLE_trans isLE_total xs

/-- The sorted list of elements that do not tie depends on their multiset alone. -/
theorem sort_eq_of_perm {xs ys : List α} (apart : ∀ a ∈ xs, ∀ b ∈ xs, order a b = .eq → a = b)
    (h : xs.Perm ys) : sort order xs = sort order ys := by
  refine List.Perm.eq_of_pairwise ?_ (pairwise_sort xs) (pairwise_sort ys)
    ((List.mergeSort_perm xs _).trans (h.trans (List.mergeSort_perm ys _).symm))
  intro a b ha hb hab hba
  refine apart a (mem_sort.1 ha) b (h.mem_iff.2 (mem_sort.1 hb)) ?_
  have hswap : order b a = (order a b).swap := Std.OrientedCmp.eq_swap
  rw [hswap] at hba
  cases heq : order a b <;> simp_all

/-- Sorting puts the first element in front of those that are not smaller. -/
theorem sort_cons (order : Comparison α) [Std.TransCmp order] (x : α) (xs : List α) :
    ∃ before after, sort order (x :: xs) = before ++ x :: after ∧ sort order xs = before ++ after ∧
      (∀ y ∈ before, (order x y).isLE = false) ∧ ∀ y ∈ after, (order x y).isLE = true := by
  obtain ⟨before, after, hcons, hrest, hbefore⟩ :=
    @List.mergeSort_cons _ (fun a b => (order a b).isLE) isLE_trans isLE_total x xs
  have hsorted : (before ++ x :: after).Pairwise fun a b => (order a b).isLE :=
    hcons ▸ pairwise_sort (x :: xs)
  refine ⟨before, after, hcons, hrest, fun y hy => by simpa using hbefore y hy, fun y hy => ?_⟩
  exact List.rel_of_pairwise_cons (List.pairwise_append.1 hsorted).2.1 hy

/-- Sorting inserts one element after the other.  So it can be evaluated by the list alone. -/
theorem sort_eq_insertionSort (order : Comparison α) [Std.TransCmp order] (xs : List α) :
    sort order xs = xs.insertionSort fun a b => (order a b).isLE := by
  have hplace {x : α} {before after : List α} (hbefore : ∀ y ∈ before, (order x y).isLE = false)
      (hafter : ∀ y ∈ after, (order x y).isLE = true) :
      (before ++ after).orderedInsert (fun a b => (order a b).isLE) x = before ++ x :: after := by
    induction before with
    | nil =>
        cases after with
        | nil => rfl
        | cons y after => exact List.orderedInsert_cons_of_le _ _ (hafter y List.mem_cons_self)
    | cons y before ih =>
        obtain ⟨hy, hbefore⟩ := List.forall_mem_cons.1 hbefore
        rw [List.cons_append, List.orderedInsert_of_not_le _ _ (by simp [hy]), ih hbefore]
        rfl
  induction xs with
  | nil => simp [sort]
  | cons x xs ih =>
      obtain ⟨before, after, hcons, hrest, hbefore, hafter⟩ := sort_cons order x xs
      rw [List.insertionSort_cons, ← ih, hrest, hcons, hplace hbefore hafter]

omit [Std.TransCmp order] in
/-- There is one place where an element goes. -/
theorem place_unique {x : α} {before after before' after' : List α}
    (h : before ++ after = before' ++ after') (hbefore : ∀ y ∈ before, (order x y).isLE = false)
    (hafter : ∀ y ∈ after, (order x y).isLE = true)
    (hbefore' : ∀ y ∈ before', (order x y).isLE = false)
    (hafter' : ∀ y ∈ after', (order x y).isLE = true) : before = before' ∧ after = after' := by
  have parts {ys zs : List α} (hy : ∀ y ∈ ys, (order x y).isLE = false)
      (hz : ∀ z ∈ zs, (order x z).isLE = true) :
      (ys ++ zs).filter (fun y => (order x y).isLE) = zs := by
    rw [List.filter_append, List.filter_eq_nil_iff.2 fun y hmem => by simp [hy y hmem],
      List.filter_eq_self.2 hz, List.nil_append]
  have heq : after = after' := (parts hbefore hafter).symm.trans (h ▸ parts hbefore' hafter')
  subst heq
  exact ⟨List.append_cancel_right h, rfl⟩

/-- Selecting commutes with sorting, as elements that tie keep their order. -/
theorem sort_filter (p : α → Bool) (xs : List α) :
    sort order (xs.filter p) = (sort order xs).filter p := by
  induction xs with
  | nil => simp [sort]
  | cons x xs ih =>
      obtain ⟨before, after, hcons, hrest, hbefore, hafter⟩ := sort_cons order x xs
      rw [hrest, List.filter_append] at ih
      rw [hcons, List.filter_append, List.filter_cons, List.filter_cons]
      by_cases hp : p x
      · obtain ⟨before', after', hcons', hrest', hbefore', hafter'⟩ :=
          sort_cons order x (xs.filter p)
        obtain ⟨rfl, rfl⟩ := place_unique (hrest'.symm.trans ih) hbefore' hafter'
          (fun y hy => hbefore y (List.mem_of_mem_filter hy))
          (fun y hy => hafter y (List.mem_of_mem_filter hy))
        rw [if_pos hp, if_pos hp, hcons']
      · rw [if_neg hp, if_neg hp, ih]

end Sorting

end ContractCalls.Ordered
