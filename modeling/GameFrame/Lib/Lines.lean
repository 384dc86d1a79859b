/-!
# Lines

A text is cut at every occurrence of a separator of two symbols that differ.
Because they differ, a separator that is written is always found where it was
written (`split_sep`), whatever symbols are in front of it, and the lines of a
text can be read off the way it was put together.
-/

namespace Lines

variable {α : Type _}

/-- The lines in front of the first that is empty. -/
def head (ls : List (List α)) : List (List α) := ls.takeWhile (· ≠ [])

theorem mem_head_append {l : List α} {ls more : List (List α)} :
    l ∈ head (ls ++ more) ↔ l ∈ head ls ∨ [] ∉ ls ∧ l ∈ head more := by
  induction ls with
  | nil => simp [head]
  | cons k ls ih =>
      cases k with
      | nil => simp [head]
      | cons x k =>
          have hhead : ∀ ls' : List (List α),
              head ((x :: k) :: ls') = (x :: k) :: head ls' := fun _ => rfl
          rw [List.cons_append, hhead, hhead, List.mem_cons, List.mem_cons, ih]
          simp [or_assoc]

/-- Without an empty line, all of them are. -/
theorem head_all {ls : List (List α)} (h : [] ∉ ls) : head ls = ls := by
  have hall : ∀ l ∈ ls, decide (l ≠ []) = true := by
    intro l hl
    simp only [decide_eq_true_eq]
    rintro rfl
    exact h hl
  have h : (ls ++ []).takeWhile (· ≠ []) = ls ++ [] :=
    List.takeWhile_append_of_pos hall
  simpa [head] using h

/-- One more symbol in front of the first line. -/
def behind (x : α) : List (List α) → List (List α)
  | [] => [[x]]
  | l :: ls => (x :: l) :: ls

theorem behind_append (x : α) {ls : List (List α)} (h : ls ≠ [])
    (more : List (List α)) : behind x (ls ++ more) = behind x ls ++ more := by
  cases ls with
  | nil => exact absurd rfl h
  | cons l ls => rfl

section

variable [DecidableEq α] {a b : α}

/-- The lines of a text. There is always one. -/
def split (a b : α) : List α → List (List α)
  | [] => [[]]
  | [x] => [[x]]
  | x :: y :: text =>
      if x = a ∧ y = b then [] :: split a b text
      else behind x (split a b (y :: text))

theorem split_ne (text : List α) : split a b text ≠ [] := by
  fun_induction split a b text with
  | case1 => exact List.cons_ne_nil _ _
  | case2 x => exact List.cons_ne_nil _ _
  | case3 x y text hsep ih => exact List.cons_ne_nil _ _
  | case4 x y text hsep ih =>
      cases h : split a b (y :: text) with
      | nil => exact absurd h ih
      | cons l ls => exact List.cons_ne_nil _ _

theorem split_cons {x : α} {text : List α}
    (h : ¬ (x = a ∧ text.head? = some b)) :
    split a b (x :: text) = behind x (split a b text) := by
  cases text with
  | nil => rfl
  | cons y text =>
      rw [split, if_neg]
      rintro ⟨rfl, rfl⟩
      exact h ⟨rfl, rfl⟩

/-- A separator ends a line, and the next begins behind it. -/
theorem split_sep (hab : a ≠ b) (text more : List α) :
    split a b (text ++ a :: b :: more) = split a b text ++ split a b more := by
  fun_induction split a b text with
  | case1 =>
      rw [List.nil_append, split, if_pos ⟨rfl, rfl⟩]
      rfl
  | case2 x =>
      have hx : ¬ (x = a ∧ (a :: b :: more).head? = some b) :=
        fun h => hab (Option.some.inj h.2)
      rw [List.singleton_append, split_cons hx, split, if_pos ⟨rfl, rfl⟩]
      rfl
  | case3 x y text hsep ih =>
      rw [List.cons_append, List.cons_append, split, if_pos hsep, ih]
      rfl
  | case4 x y text hsep ih =>
      rw [List.cons_append, List.cons_append, split, if_neg hsep,
        ← List.cons_append, ih, behind_append x (split_ne _)]

/-- Text that the first symbol of the separator is not in is one line. -/
theorem split_clear {text : List α} (h : a ∉ text) :
    split a b text = [text] := by
  induction text with
  | nil => rfl
  | cons x text ih =>
      rw [List.mem_cons, not_or] at h
      rw [split_cons fun hsep => h.1 hsep.1.symm, ih h.2]
      rfl

/-- A row of texts, each with a separator behind it. -/
theorem split_flatMap {β : Type _} (hab : a ≠ b) (f : β → List α) (xs : List β)
    (more : List α) :
    split a b (xs.flatMap (fun x => f x ++ [a, b]) ++ more) =
      xs.flatMap (fun x => split a b (f x)) ++ split a b more := by
  induction xs with
  | nil => rfl
  | cons x xs ih =>
      rw [List.flatMap_cons, List.append_assoc, List.append_assoc,
        List.flatMap_cons, List.append_assoc, ← ih]
      exact split_sep hab _ _

end

end Lines
