/-!
# A circular slot list

A queue of bounded size lives in a list of slots, in a window that starts at
some slot and wraps around at the end of the list. Nothing is ever moved: a
push writes the slot behind the window, a pop takes the one in front, and the
window grows or shrinks by one. `window_push` and `window_pop` are those two
facts. Both need only that the slot written is not in the window that is kept,
which is what the residues give as long as the window is not the whole ring
(`wrap_ne`).
-/

namespace Ring

variable {α : Type _} [Inhabited α]

/-- The slot `i` places behind `head`. -/
def slot (slots : List α) (head i : Nat) : α :=
  slots.getD ((head + i) % slots.length) default

/-- The `n` elements from `head` on. -/
def window (slots : List α) (head n : Nat) : List α :=
  (List.range n).map (slot slots head)

@[simp] theorem window_length (slots : List α) (head n : Nat) :
    (window slots head n).length = n := by
  rw [window, List.length_map, List.length_range]

/-- Two places less than a whole turn apart are different slots. -/
theorem wrap_ne {i j : Nat} (len head : Nat) (hij : i < j) (hj : j < len + i) :
    (head + i) % len ≠ (head + j) % len := by
  intro h
  have hdvd : len ∣ (head + j) - (head + i) :=
    Nat.dvd_of_mod_eq_zero (Nat.sub_mod_eq_zero_of_mod_eq h.symm)
  have := Nat.eq_zero_of_dvd_of_lt hdvd (by omega)
  omega

theorem slot_set_ne {slots : List α} {head i k : Nat} (x : α)
    (h : (head + i) % slots.length ≠ k) :
    slot (slots.set k x) head i = slot slots head i := by
  rw [slot, slot, List.length_set, List.getD_eq_getElem?_getD,
    List.getElem?_set_ne (Ne.symm h), ← List.getD_eq_getElem?_getD]

theorem slot_set_self {slots : List α} (hpos : 0 < slots.length)
    (head i : Nat) (x : α) :
    slot (slots.set ((head + i) % slots.length) x) head i = x := by
  rw [slot, List.length_set, List.getD_eq_getElem?_getD,
    List.getElem?_set_self (Nat.mod_lt _ hpos), Option.getD_some]

/-- Writing the slot behind the window lengthens it by that element. -/
theorem window_push {slots : List α} (head : Nat) {n : Nat} (x : α)
    (hn : n < slots.length) :
    window (slots.set ((head + n) % slots.length) x) head (n + 1) =
      window slots head n ++ [x] := by
  rw [window, List.range_succ, List.map_append, List.map_singleton,
    slot_set_self (by omega), window]
  refine congrArg (· ++ [x]) (List.map_congr_left fun i hi => ?_)
  have hin := List.mem_range.mp hi
  exact slot_set_ne x (wrap_ne _ head hin (by omega))

/-- Taking the slot in front, and overwriting it with anything, leaves the
rest of the window. -/
theorem window_pop {slots : List α} {head n : Nat} (x : α)
    (hhead : head < slots.length) (hn : n < slots.length) :
    window slots head (n + 1) =
      slots.getD head default ::
        window (slots.set head x) ((head + 1) % slots.length) n := by
  have hfront : slot slots head 0 = slots.getD head default := by
    rw [slot, Nat.add_zero, Nat.mod_eq_of_lt hhead]
  rw [window, List.range_succ_eq_map, List.map_cons, hfront, List.map_map,
    window]
  refine congrArg (_ :: ·) (List.map_congr_left fun i hi => ?_)
  have hin := List.mem_range.mp hi
  have hstep : ((head + 1) % slots.length + i) % slots.length =
      (head + (i + 1)) % slots.length := by
    rw [Nat.mod_add_mod, Nat.add_assoc, Nat.add_comm 1 i]
  have hne : (head + (i + 1)) % slots.length ≠ head := by
    have := wrap_ne slots.length head (Nat.succ_pos i) (by omega)
    rw [Nat.add_zero, Nat.mod_eq_of_lt hhead] at this
    exact Ne.symm this
  rw [slot_set_ne x (by rw [hstep]; exact hne)]
  show slot slots head (i + 1) = _
  rw [slot, slot, hstep]

end Ring
