import Mathlib.Order.Defs.PartialOrder

/-!
# A journal in volumes

What is written goes into the newest of a list of volumes. A volume has a day
and a number. On a later day a new one is begun with the number one; on the
same day only when the newest has reached the capacity, with the next number.
`Rolled` says that volumes came about like this. The list is in the order of
the days and numbers, newest first (`Rolled.ordered`), every volume that is
not the last of its day has reached the capacity (`Rolled.full`), and a day has
at least as many volumes as their numbers say (`Rolled.count`).
-/

structure Volume (α β : Type _) where
  day : α
  seq : Nat
  data : List β
  deriving DecidableEq, Repr

namespace Volume

variable {α β : Type _}

/-- What is written, from the first volume on. -/
def journal (vs : List (Volume α β)) : List β :=
  vs.reverse.flatMap Volume.data

theorem journal_cons (v : Volume α β) (vs : List (Volume α β)) :
    journal (v :: vs) = journal vs ++ v.data := by
  rw [journal, List.reverse_cons, List.flatMap_append, List.flatMap_singleton]
  rfl

/-- A volume that is begun has nothing in it. -/
theorem journal_begin (d : α) (seq : Nat) (vs : List (Volume α β)) :
    journal (⟨d, seq, []⟩ :: vs) = journal vs := by
  rw [journal_cons, List.append_nil]

variable [PartialOrder α]

inductive Rolled (cap : Nat) : List (Volume α β) → Prop where
  | nil : Rolled cap []
  | day {vs : List (Volume α β)} (d : α) (data : List β) : Rolled cap vs →
      (∀ v ∈ vs, v.day < d) → Rolled cap (⟨d, 1, data⟩ :: vs)
  | next {v : Volume α β} {vs : List (Volume α β)} (data : List β) :
      Rolled cap (v :: vs) → cap ≤ v.data.length →
      Rolled cap (⟨v.day, v.seq + 1, data⟩ :: v :: vs)

/-- `w` is before `v`, and full if it is of the same day. -/
def Under (cap : Nat) (v w : Volume α β) : Prop :=
  w.day < v.day ∨ w.day = v.day ∧ w.seq < v.seq ∧ cap ≤ w.data.length

variable {cap : Nat}

theorem Rolled.write {v : Volume α β} {vs : List (Volume α β)}
    (h : Rolled cap (v :: vs)) (data : List β) :
    Rolled cap ({ v with data := v.data ++ data } :: vs) := by
  cases h with
  | day _ _ h hlater => exact .day _ _ h hlater
  | next _ h hfull => exact .next _ h hfull

theorem Rolled.ordered {vs : List (Volume α β)} (h : Rolled cap vs) :
    vs.Pairwise (Under cap) := by
  induction h with
  | nil => exact .nil
  | day d data _ hlater ih =>
      exact .cons (fun w hw => .inl (hlater w hw)) ih
  | @next v vs data _ hfull ih =>
      refine .cons (fun w hw => ?_) ih
      rcases List.mem_cons.mp hw with rfl | hw
      · exact .inr ⟨rfl, Nat.lt_succ_self _, hfull⟩
      · rcases (List.pairwise_cons.mp ih).1 w hw with hlt | ⟨heq, hlt, hfull⟩
        · exact .inl hlt
        · exact .inr ⟨heq, Nat.lt_succ_of_lt hlt, hfull⟩

/-- A volume is full if there is another behind it of the same day. -/
theorem Rolled.full {vs : List (Volume α β)} (h : Rolled cap vs) :
    ∀ v ∈ vs, ∀ w ∈ vs, w.day = v.day → w.seq < v.seq →
      cap ≤ w.data.length := by
  have hord := h.ordered
  clear h
  induction hord with
  | nil => simp
  | cons hunder _ ih =>
      intro v hv w hw hday hseq
      rcases List.mem_cons.mp hv with rfl | hmem
      · rcases List.mem_cons.mp hw with rfl | hw
        · exact absurd hseq (Nat.lt_irrefl _)
        · rcases hunder w hw with hlt | ⟨-, -, hfull⟩
          · exact absurd hday (ne_of_lt hlt)
          · exact hfull
      · rcases List.mem_cons.mp hw with rfl | hw
        · rcases hunder v hmem with hlt | ⟨-, hlt, -⟩
          · exact absurd hday.symm (ne_of_lt hlt)
          · exact absurd hseq (Nat.lt_asymm hlt)
        · exact ih v hmem w hw hday hseq

theorem Rolled.pos {vs : List (Volume α β)} (h : Rolled cap vs) :
    ∀ v ∈ vs, 0 < v.seq := by
  induction h with
  | nil => simp
  | day d data _ _ ih | next data _ _ ih =>
      intro v hv
      rcases List.mem_cons.mp hv with rfl | hv
      · exact Nat.succ_pos _
      · exact ih v hv

/-- A day has as many volumes as the number of any of them says. -/
theorem Rolled.count [DecidableEq α] {vs : List (Volume α β)}
    (h : Rolled cap vs) :
    ∀ v ∈ vs, v.seq ≤ (vs.filter fun w => w.day = v.day).length := by
  have htail : ∀ (v w : Volume α β) (vs : List (Volume α β)),
      (vs.filter fun w => w.day = v.day).length ≤
        ((w :: vs).filter fun w => w.day = v.day).length := by
    intro v w vs
    exact ((List.sublist_cons_self w vs).filter _).length_le
  induction h with
  | nil => simp
  | day d data _ _ ih =>
      intro v hv
      rcases List.mem_cons.mp hv with rfl | hv
      · rw [List.filter_cons_of_pos (by simp)]
        exact Nat.succ_le_succ (Nat.zero_le _)
      · exact Nat.le_trans (ih v hv) (htail v _ _)
  | @next v vs data _ _ ih =>
      intro w hw
      rcases List.mem_cons.mp hw with rfl | hw
      · rw [List.filter_cons_of_pos (by simp)]
        exact Nat.succ_le_succ (ih v List.mem_cons_self)
      · exact Nat.le_trans (ih w hw) (htail w _ _)

end Volume
