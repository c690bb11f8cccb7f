/-!
# Cutting text at a separator

Paths, locations and lists of alternatives are texts cut at every occurrence of one character.
Cutting always gives at least one piece, and cutting pieces joined with the separator gives the pieces
back.

## Main results

* `cut_ne_nil` — there is always a first piece.
* `cut_append`, `cut_of_not_mem` — a piece ends at the first separator, or at the end of the text.
* `cut_append_cut`, `cut_eq_splitOn` — cutting goes on in the same way after a separator.
* `exists_append_mem_cut` — what stands at the end of a text stands at the end of a piece.
* `cut_joinWith` — joined pieces are cut where they were joined.
-/

namespace SheetFill.Text

/-- The pieces of a text between the occurrences of `sep`. -/
def cut (sep : Char) : List Char → List (List Char)
  | [] => [[]]
  | c :: cs =>
    if c = sep then [] :: cut sep cs
    else match cut sep cs with
      | [] => [[c]]
      | piece :: pieces => (c :: piece) :: pieces

/-- The pieces written one after the other, with `sep` between them. -/
def joinWith (sep : List Char) : List (List Char) → List Char
  | [] => []
  | [piece] => piece
  | piece :: pieces => piece ++ sep ++ joinWith sep pieces

theorem cut_ne_nil (sep : Char) (cs : List Char) : cut sep cs ≠ [] := by
  cases cs with
  | nil => simp [cut]
  | cons c cs =>
      simp only [cut]
      split
      · simp
      · split <;> simp

/-- A piece ends at the first separator. -/
theorem cut_append {sep : Char} {piece : List Char} (h : sep ∉ piece) (rest : List Char) :
    cut sep (piece ++ sep :: rest) = piece :: cut sep rest := by
  induction piece with
  | nil => simp [cut]
  | cons c piece ih =>
      rw [List.mem_cons, not_or] at h
      rw [List.cons_append, cut, if_neg (Ne.symm h.1), ih h.2]

/-- A text without separators is one piece. -/
theorem cut_of_not_mem {sep : Char} {cs : List Char} (h : sep ∉ cs) : cut sep cs = [cs] := by
  induction cs with
  | nil => rfl
  | cons c cs ih =>
      rw [List.mem_cons, not_or] at h
      rw [cut, if_neg (Ne.symm h.1), ih h.2]

theorem not_mem_of_mem_cut {sep : Char} {cs piece : List Char} (h : piece ∈ cut sep cs) : sep ∉ piece := by
  induction cs generalizing piece with
  | nil => simp_all [cut]
  | cons c cs ih =>
      simp only [cut] at h
      split at h
      · rcases List.mem_cons.1 h with rfl | h
        · exact List.not_mem_nil
        · exact ih h
      · next hc =>
          split at h
          · next hcut => exact absurd hcut (cut_ne_nil sep cs)
          · next first pieces hcut =>
              rw [hcut] at ih
              rcases List.mem_cons.1 h with rfl | h
              · rw [List.mem_cons, not_or]
                exact ⟨Ne.symm hc, ih List.mem_cons_self⟩
              · exact ih (List.mem_cons_of_mem _ h)

theorem cut_append_cut (sep : Char) (cs rest : List Char) :
    cut sep (cs ++ sep :: rest) = cut sep cs ++ cut sep rest := by
  induction cs with
  | nil => simp [cut]
  | cons c cs ih =>
      rw [List.cons_append, cut, cut, ih]
      by_cases hc : c = sep
      · rw [if_pos hc, if_pos hc]
        rfl
      · rw [if_neg hc, if_neg hc]
        cases hcut : cut sep cs with
        | nil => exact absurd hcut (cut_ne_nil sep cs)
        | cons piece pieces => rfl

/-- What stands without separators at the end of a text is the end of a piece. -/
theorem exists_append_mem_cut {sep : Char} {piece : List Char} (h : sep ∉ piece) (front : List Char) :
    ∃ start, start ++ piece ∈ cut sep (front ++ piece) := by
  induction front with
  | nil => exact ⟨[], by simp [cut_of_not_mem h]⟩
  | cons c front ih =>
      obtain ⟨start, hstart⟩ := ih
      rw [List.cons_append, cut]
      by_cases hc : c = sep
      · rw [if_pos hc]
        exact ⟨start, List.mem_cons_of_mem _ hstart⟩
      · rw [if_neg hc]
        cases hcut : cut sep (front ++ piece) with
        | nil => exact absurd hcut (cut_ne_nil sep _)
        | cons first pieces =>
            rw [hcut] at hstart
            rcases List.mem_cons.1 hstart with hfirst | hlater
            · exact ⟨c :: start, by simp [hfirst]⟩
            · exact ⟨start, List.mem_cons_of_mem _ hlater⟩

theorem cut_eq_splitOn (sep : Char) (cs : List Char) : cut sep cs = cs.splitOn sep := by
  induction cs with
  | nil => rfl
  | cons c cs ih =>
      rw [List.splitOn_eq_splitOnP] at ih ⊢
      rw [List.splitOnP_cons_eq_if_modifyHead, cut, ← ih]
      by_cases hc : c = sep
      · rw [if_pos hc, if_pos (beq_iff_eq.2 hc)]
      · rw [if_neg hc, if_neg (by simpa using hc)]
        cases hcut : cut sep cs with
        | nil => exact absurd hcut (cut_ne_nil sep cs)
        | cons piece pieces => rfl

theorem joinWith_cons {sep piece : List Char} {pieces : List (List Char)} (h : pieces ≠ []) :
    joinWith sep (piece :: pieces) = piece ++ sep ++ joinWith sep pieces := by
  cases pieces with
  | nil => exact absurd rfl h
  | cons p ps => rfl

/-- Joined pieces are the first one and the others with the separator in front. -/
theorem joinWith_cons_eq_flatMap (sep piece : List Char) (pieces : List (List Char)) :
    joinWith sep (piece :: pieces) = piece ++ pieces.flatMap (sep ++ ·) := by
  induction pieces generalizing piece with
  | nil => rw [joinWith, List.flatMap_nil, List.append_nil]
  | cons next pieces ih =>
      rw [joinWith_cons (List.cons_ne_nil next pieces), ih, List.flatMap_cons, List.append_assoc,
        List.append_assoc]

/-- Pieces without separators can be told from the text that they are joined to. -/
theorem cut_joinWith {sep : Char} {pieces : List (List Char)} (hne : pieces ≠ [])
    (h : ∀ piece ∈ pieces, sep ∉ piece) : cut sep (joinWith [sep] pieces) = pieces := by
  induction pieces with
  | nil => exact absurd rfl hne
  | cons piece pieces ih =>
      obtain ⟨hpiece, hpieces⟩ := List.forall_mem_cons.1 h
      cases pieces with
      | nil => exact cut_of_not_mem hpiece
      | cons next pieces =>
          rw [joinWith_cons (List.cons_ne_nil _ _), List.append_assoc, List.singleton_append,
            cut_append hpiece, ih (List.cons_ne_nil _ _) hpieces]

theorem mem_joinWith {sep piece : List Char} {pieces : List (List Char)} (h : piece ∈ pieces) {c : Char}
    (hc : c ∈ piece) : c ∈ joinWith sep pieces := by
  induction pieces with
  | nil => cases h
  | cons first rest ih =>
      cases rest with
      | nil => rwa [List.mem_singleton.1 h] at hc
      | cons next rest =>
          rw [joinWith_cons (List.cons_ne_nil _ _), List.mem_append, List.mem_append]
          rcases List.mem_cons.1 h with rfl | h
          · exact .inl (.inl hc)
          · exact .inr (ih h)

end SheetFill.Text
