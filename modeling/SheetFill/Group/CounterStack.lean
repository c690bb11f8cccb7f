/-!
# Stacks of counters

A depth-first walk over nested lists keeps one list of pending elements per level that it has entered.
A step drops finished levels from the top, takes one element off the level that is then on top, and
enters deeper levels again, whose lists may be of any length. Only the number of levels is bounded.

No single number goes down in such a step, but no sequence of steps goes on forever: the counter that
is lowered lies deeper in the stack than all the counters that are replaced.

## Main results

* `CounterStack.step_wf` — steps are well-founded.
-/

namespace SheetFill.Group

/-- The pending elements per entered level, innermost first, and the number of levels not entered. -/
structure CounterStack where
  pending : List Nat
  waiting : Nat

namespace CounterStack

/-- `Step after before`: some levels are left, one counter goes down by one, some levels are entered. -/
inductive Step : CounterStack → CounterStack → Prop where
  | mk (entered left rest : List Nat) (n waiting waiting' : Nat)
      (h : entered.length + waiting' = left.length + waiting) :
      Step ⟨entered ++ n :: rest, waiting'⟩ ⟨left ++ (n + 1) :: rest, waiting⟩

/-- With no level entered there is nothing to step to. -/
theorem acc_nil (waiting : Nat) : Acc Step ⟨[], waiting⟩ := by
  constructor
  intro y h
  generalize hx : (⟨[], waiting⟩ : CounterStack) = x at h
  cases h with
  | mk entered left rest n w w' h => simp at hx

/--
Runs from a stack end if those from the stack below its top do, and those that start by lowering its
top.
-/
theorem acc_cons {n waiting : Nat} {rest : List Nat} (hrest : Acc Step ⟨rest, waiting + 1⟩)
    (htop : ∀ m, n = m + 1 → ∀ (entered : List Nat) (waiting' : Nat),
      entered.length + waiting' = waiting → Acc Step ⟨entered ++ m :: rest, waiting'⟩) :
    Acc Step ⟨n :: rest, waiting⟩ := by
  constructor
  intro y hy
  generalize hx : (⟨n :: rest, waiting⟩ : CounterStack) = x at hy
  cases hy with
  | mk entered left rest' m w w' hlen =>
      cases left with
      | nil =>
          simp only [List.nil_append, mk.injEq, List.cons.injEq] at hx
          obtain ⟨⟨hn, rfl⟩, rfl⟩ := hx
          exact htop m hn entered w' (by simpa using hlen)
      | cons a left =>
          simp only [List.cons_append, mk.injEq, List.cons.injEq] at hx
          obtain ⟨⟨rfl, rfl⟩, rfl⟩ := hx
          refine hrest.inv (Step.mk entered left rest' m (waiting + 1) w' ?_)
          simp only [List.length_cons] at hlen
          omega

/-- Entering levels on top of a stack from which every run ends gives such a stack again. -/
theorem acc_append (waiting : Nat) : ∀ rest : List Nat, Acc Step ⟨rest, waiting + 1⟩ →
    ∀ (n : Nat) (entered : List Nat) (waiting' : Nat), entered.length + waiting' = waiting →
      Acc Step ⟨entered ++ n :: rest, waiting'⟩ := by
  induction waiting with
  | zero =>
      intro rest hrest n
      induction n with
      | zero =>
          intro entered waiting' h
          obtain rfl : entered = [] := List.eq_nil_of_length_eq_zero (by omega)
          obtain rfl : waiting' = 0 := by simpa using h
          exact acc_cons hrest (by simp)
      | succ n ih =>
          intro entered waiting' h
          obtain rfl : entered = [] := List.eq_nil_of_length_eq_zero (by omega)
          obtain rfl : waiting' = 0 := by simpa using h
          exact acc_cons hrest (by rintro m ⟨⟩; exact ih)
  | succ k ihk =>
      intro rest hrest n
      have extend (n : Nat) (top : Acc Step ⟨n :: rest, k + 1⟩) (entered : List Nat) (waiting' : Nat)
          (h : entered.length + waiting' = k + 1) : Acc Step ⟨entered ++ n :: rest, waiting'⟩ := by
        rcases List.eq_nil_or_concat entered with rfl | ⟨init, x, rfl⟩
        · obtain rfl : waiting' = k + 1 := by simpa using h
          exact top
        · have := ihk (n :: rest) top x init waiting' (by simp at h; omega)
          simpa using this
      induction n with
      | zero => exact extend 0 (acc_cons hrest (by simp))
      | succ n ih => exact extend (n + 1) (acc_cons hrest (by rintro m ⟨⟩; exact ih))

theorem step_wf : WellFounded Step := by
  constructor
  intro ⟨pending, waiting⟩
  rcases List.eq_nil_or_concat pending with rfl | ⟨init, x, rfl⟩
  · exact acc_nil waiting
  · have := acc_append (init.length + waiting) [] (acc_nil _) x init waiting rfl
    simpa using this

end CounterStack

end SheetFill.Group
