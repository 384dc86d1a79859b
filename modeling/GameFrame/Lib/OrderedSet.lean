import Mathlib.Order.Lattice

/-!
# Ordered sets

A container like `std::set`: its elements are kept in the order of a key, no
two of them with the same one, and the element in front has the smallest. The
order is a field, so that no operation can lose it, and what an operation does
is said by what is in the set behind it and by what is in front.
-/

/-- The elements, by increasing key. -/
structure OrderedSet {α : Type _} {κ : Type _} [LinearOrder κ] (key : α → κ)
    where
  elems : List α
  sorted : elems.Pairwise fun a b => key a < key b

namespace OrderedSet

variable {α : Type _} {κ : Type _} [LinearOrder κ] {key : α → κ}

instance : Membership α (OrderedSet key) := ⟨fun s a => a ∈ s.elems⟩

theorem mem_def {a : α} {s : OrderedSet key} : a ∈ s ↔ a ∈ s.elems := Iff.rfl

def empty : OrderedSet key := ⟨[], .nil⟩

/-- The element in front. -/
def begin? (s : OrderedSet key) : Option α := s.elems.head?

/-- An element put in its place, if its key is not there yet. -/
def insertElems (key : α → κ) (a : α) : List α → List α
  | [] => [a]
  | b :: l =>
      if key a < key b then a :: b :: l
      else if key b < key a then b :: insertElems key a l
      else b :: l

theorem mem_of_mem_insertElems {a x : α} {l : List α}
    (h : x ∈ insertElems key a l) : x = a ∨ x ∈ l := by
  induction l with
  | nil => exact .inl (List.mem_singleton.mp h)
  | cons b l ih =>
      rw [insertElems] at h
      split at h
      · exact List.mem_cons.mp h
      · split at h
        · rcases List.mem_cons.mp h with rfl | h
          · exact .inr List.mem_cons_self
          · exact (ih h).imp_right (List.mem_cons_of_mem b)
        · exact .inr h

theorem pairwise_insertElems (a : α) {l : List α}
    (h : l.Pairwise fun a b => key a < key b) :
    (insertElems key a l).Pairwise fun a b => key a < key b := by
  induction l with
  | nil => exact List.pairwise_singleton _ _
  | cons b l ih =>
      obtain ⟨hb, hl⟩ := List.pairwise_cons.mp h
      rw [insertElems]
      split
      · next hab =>
          refine List.pairwise_cons.mpr ⟨fun x hx => ?_, h⟩
          rcases List.mem_cons.mp hx with rfl | hx
          · exact hab
          · exact lt_trans hab (hb x hx)
      · split
        · next hba =>
            refine List.pairwise_cons.mpr ⟨fun x hx => ?_, ih hl⟩
            rcases mem_of_mem_insertElems hx with rfl | hx
            · exact hba
            · exact hb x hx
        · exact h

def insert (s : OrderedSet key) (a : α) : OrderedSet key :=
  ⟨insertElems key a s.elems, pairwise_insertElems a s.sorted⟩

/-- The element with this key, taken out. -/
def erase (s : OrderedSet key) (a : α) : OrderedSet key :=
  ⟨s.elems.filter fun b => key b ≠ key a, s.sorted.filter _⟩

/-- Elements taken out from the front, as long as `p` holds. -/
def popWhile (s : OrderedSet key) (p : α → Bool) : List α × OrderedSet key :=
  (s.elems.takeWhile p,
    ⟨s.elems.dropWhile p, s.sorted.sublist (List.dropWhile_sublist p)⟩)

/-! ## What is in the set -/

@[simp] theorem not_mem_empty (a : α) : a ∉ (empty : OrderedSet key) :=
  List.not_mem_nil

theorem mem_of_begin? {s : OrderedSet key} {b : α} (h : s.begin? = some b) :
    b ∈ s := List.mem_of_head? h

theorem mem_insert {s : OrderedSet key} {a x : α}
    (hnew : ∀ b ∈ s, key b ≠ key a) : x ∈ s.insert a ↔ x = a ∨ x ∈ s := by
  refine ⟨mem_of_mem_insertElems, fun hx => ?_⟩
  have hmem : ∀ l : List α, (∀ b ∈ l, key b ≠ key a) → x = a ∨ x ∈ l →
      x ∈ insertElems key a l := by
    intro l hnew hx
    induction l with
    | nil => exact List.mem_singleton.mpr (by simpa using hx)
    | cons b l ih =>
        rw [insertElems]
        split
        · exact List.mem_cons.mpr hx
        · next hab =>
            have hba : key b < key a :=
              lt_of_le_of_ne (not_lt.mp hab) (hnew b List.mem_cons_self)
            rw [if_pos hba]
            rcases hx with rfl | hx
            · exact List.mem_cons_of_mem b
                (ih (fun c hc => hnew c (List.mem_cons_of_mem b hc)) (.inl rfl))
            · rcases List.mem_cons.mp hx with rfl | hx
              · exact List.mem_cons_self
              · exact List.mem_cons_of_mem b
                  (ih (fun c hc => hnew c (List.mem_cons_of_mem b hc)) (.inr hx))
  exact hmem s.elems hnew hx

theorem mem_erase {s : OrderedSet key} {a x : α} :
    x ∈ s.erase a ↔ x ∈ s ∧ key x ≠ key a := by
  rw [mem_def, erase, List.mem_filter, decide_eq_true_eq]
  exact Iff.rfl

theorem mem_popWhile {s : OrderedSet key} {p : α → Bool} {x : α} :
    x ∈ (s.popWhile p).1 ∨ x ∈ (s.popWhile p).2 ↔ x ∈ s := by
  have happend : s.elems.takeWhile p ++ s.elems.dropWhile p = s.elems :=
    List.takeWhile_append_dropWhile
  rw [mem_def (s := s), ← happend, List.mem_append]
  exact Iff.rfl

/-- What was taken out was in front of the rest. -/
theorem key_lt_of_popWhile {s : OrderedSet key} {p : α → Bool} {a b : α}
    (ha : a ∈ (s.popWhile p).1) (hb : b ∈ (s.popWhile p).2) :
    key a < key b := by
  have hsorted := s.sorted
  rw [← List.takeWhile_append_dropWhile (p := p) (l := s.elems)] at hsorted
  exact (List.pairwise_append.mp hsorted).2.2 a ha b hb

/-- If `p` holds below every element it holds of, what is taken out is all of
them. -/
theorem popWhile_eq_filter (s : OrderedSet key) {p : α → Bool}
    (hdown : ∀ a b, key a < key b → p b = true → p a = true) :
    (s.popWhile p).1 = s.elems.filter p := by
  have htake : ∀ {l : List α}, (l.Pairwise fun a b => key a < key b) →
      l.takeWhile p = l.filter p := by
    intro l hl
    induction l with
    | nil => rfl
    | cons a l ih =>
        obtain ⟨ha, hl⟩ := List.pairwise_cons.mp hl
        by_cases hp : p a = true
        · rw [List.takeWhile_cons_of_pos hp, List.filter_cons_of_pos hp, ih hl]
        · have hnone : ∀ b ∈ l, ¬ p b = true := fun b hb hpb =>
            hp (hdown a b (ha b hb) hpb)
          rw [List.takeWhile_cons_of_neg hp, List.filter_cons_of_neg hp,
            List.filter_eq_nil_iff.mpr hnone]
  exact htake s.sorted

/-- And what is left is none of them. -/
theorem not_of_mem_popWhile {s : OrderedSet key} {p : α → Bool}
    (hdown : ∀ a b, key a < key b → p b = true → p a = true) {a : α}
    (ha : a ∈ (s.popWhile p).2) : p a = false := by
  refine Bool.eq_false_iff.mpr fun hp => ?_
  have hmem : a ∈ (s.popWhile p).1 := by
    rw [popWhile_eq_filter s hdown]
    exact List.mem_filter.mpr ⟨mem_popWhile.mp (.inr ha), hp⟩
  exact lt_irrefl _ (key_lt_of_popWhile hmem ha)

/-! ## What is in front -/

theorem begin?_le {s : OrderedSet key} {a b : α} (hb : s.begin? = some b)
    (ha : a ∈ s) : key b ≤ key a := by
  obtain ⟨elems, sorted⟩ := s
  cases elems with
  | nil => cases hb
  | cons c l =>
      obtain rfl : c = b := by simpa [begin?] using hb
      rcases List.mem_cons.mp ha with rfl | ha
      · exact le_refl _
      · exact le_of_lt ((List.pairwise_cons.mp sorted).1 a ha)

theorem exists_begin? {s : OrderedSet key} {a : α} (ha : a ∈ s) :
    ∃ b, s.begin? = some b := by
  obtain ⟨elems, sorted⟩ := s
  cases elems with
  | nil => cases ha
  | cons b l => exact ⟨b, rfl⟩

theorem begin?_insert {s : OrderedSet key} {a b : α} (h : s.begin? = some b)
    (hab : ¬ key a < key b) : (s.insert a).begin? = some b := by
  obtain ⟨elems, sorted⟩ := s
  cases elems with
  | nil => cases h
  | cons c l =>
      obtain rfl : c = b := by simpa [begin?] using h
      simp only [insert, begin?, insertElems, if_neg hab]
      split
      · rfl
      · rfl

theorem begin?_insert_front {s : OrderedSet key} {a : α}
    (h : ∀ b ∈ s.begin?, key a < key b) : (s.insert a).begin? = some a := by
  obtain ⟨elems, sorted⟩ := s
  cases elems with
  | nil => rfl
  | cons b l =>
      have hab : key a < key b := h b rfl
      simp only [insert, begin?, insertElems, if_pos hab]
      rfl

theorem begin?_erase {s : OrderedSet key} {a b : α} (h : s.begin? = some b)
    (hne : key b ≠ key a) : (s.erase a).begin? = some b := by
  obtain ⟨elems, sorted⟩ := s
  cases elems with
  | nil => cases h
  | cons c l =>
      obtain rfl : c = b := by simpa [begin?] using h
      simp [erase, begin?, hne]

end OrderedSet
