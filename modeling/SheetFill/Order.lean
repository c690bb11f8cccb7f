/-!
# Bringing a list into order

Insertion sort under a Boolean order. Elements that the order does not tell apart keep their places
relative to each other. Lists that are nearly in order already, such as the cells of a sheet in the
order in which a file holds them, take close to linear time.

## Main results

* `perm_inOrder` — nothing is lost or added.
* `pairwise_inOrder` — the elements are in order, if the order is total and transitive.
* `eq_of_pairwise_lt` — elements of different keys have one ascending order.
-/

namespace SheetFill.Order

variable {α : Type}

/-- Puts an element before the first one that it may precede. -/
def insertOrdered (le : α → α → Bool) (a : α) : List α → List α
  | [] => [a]
  | b :: bs => if le a b then a :: b :: bs else b :: insertOrdered le a bs

/-- The elements of a list in ascending order. -/
def inOrder (le : α → α → Bool) (as : List α) : List α := as.foldr (insertOrdered le) []

theorem perm_insertOrdered (le : α → α → Bool) (a : α) (bs : List α) :
    (insertOrdered le a bs).Perm (a :: bs) := by
  induction bs with
  | nil => exact .refl _
  | cons b bs ih =>
      simp only [insertOrdered]
      split
      · exact .refl _
      · exact (ih.cons b).trans (.swap a b bs)

theorem perm_inOrder (le : α → α → Bool) (as : List α) : (inOrder le as).Perm as := by
  induction as with
  | nil => exact .refl _
  | cons a as ih => exact (perm_insertOrdered le a _).trans (ih.cons a)

theorem pairwise_insertOrdered {le : α → α → Bool} (htotal : ∀ a b, le a b ∨ le b a)
    (htrans : ∀ a b c, le a b → le b c → le a c) (a : α) {bs : List α}
    (h : bs.Pairwise fun a b => le a b) : (insertOrdered le a bs).Pairwise fun a b => le a b := by
  induction bs with
  | nil => simp [insertOrdered]
  | cons b bs ih =>
      obtain ⟨hb, hbs⟩ := List.pairwise_cons.1 h
      simp only [insertOrdered]
      split
      · next hab =>
          refine List.pairwise_cons.2 ⟨fun c hc => ?_, h⟩
          rcases List.mem_cons.1 hc with rfl | hc
          · exact hab
          · exact htrans a b c hab (hb c hc)
      · next hab =>
          refine List.pairwise_cons.2 ⟨fun c hc => ?_, ih hbs⟩
          rcases List.mem_cons.1 ((perm_insertOrdered le a bs).mem_iff.1 hc) with rfl | hc
          · exact (htotal c b).resolve_left hab
          · exact hb c hc

theorem pairwise_inOrder {le : α → α → Bool} (htotal : ∀ a b, le a b ∨ le b a)
    (htrans : ∀ a b c, le a b → le b c → le a c) (as : List α) :
    (inOrder le as).Pairwise fun a b => le a b := by
  induction as with
  | nil => exact .nil
  | cons a as ih => exact pairwise_insertOrdered htotal htrans a ih

/-! ## Strictly ascending keys -/

section Keys

variable {key : α → Nat} {as bs : List α}

theorem nodup_of_pairwise_lt (h : as.Pairwise fun a b => key a < key b) : as.Nodup := by
  apply h.imp
  intro a b hlt heq
  rw [heq] at hlt
  exact Nat.lt_irrefl _ hlt

/-- Lists with the same elements are the same if their keys ascend. -/
theorem eq_of_pairwise_lt (has : as.Pairwise fun a b => key a < key b)
    (hbs : bs.Pairwise fun a b => key a < key b) (h : ∀ a, a ∈ as ↔ a ∈ bs) : as = bs := by
  have hperm := (List.perm_ext_iff_of_nodup (nodup_of_pairwise_lt has) (nodup_of_pairwise_lt hbs)).2 h
  refine hperm.eq_of_pairwise (fun a b _ _ hab hba => ?_) has hbs
  omega

/-- Elements of different keys can be brought into the order of their keys. -/
theorem pairwise_lt_inOrder (h : as.Pairwise fun a b => key a ≠ key b) :
    (inOrder (fun a b => decide (key a ≤ key b)) as).Pairwise fun a b => key a < key b := by
  have hle : (inOrder (fun a b => decide (key a ≤ key b)) as).Pairwise fun a b => key a ≤ key b := by
    refine (pairwise_inOrder (fun a b => ?_) (fun a b c => ?_) as).imp of_decide_eq_true
    all_goals
      simp only [decide_eq_true_eq]
      omega
  have hne : (inOrder (fun a b => decide (key a ≤ key b)) as).Pairwise fun a b => key a ≠ key b :=
    (perm_inOrder _ as).symm.pairwise h fun hab => hab.symm
  exact hle.imp₂ (fun a b hab hab' => by omega) hne

end Keys

end SheetFill.Order
