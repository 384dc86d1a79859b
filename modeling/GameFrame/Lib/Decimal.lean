/-!
# Decimal numbers, with and without zeros in front

`%d`, and `%02d` and its like. A number is read back from either, digits are
all that stands in it, and a text that goes on behind a number with something
else than a digit has that number in front and no other (`digits_split`).
-/

namespace Decimal

def dec (n : Nat) : List Char := Nat.toDigits 10 n

/-- With zeros in front, up to that width. -/
def pad (width n : Nat) : List Char :=
  List.replicate (width - (dec n).length) '0' ++ dec n

def value (cs : List Char) : Nat := Nat.ofDigitChars 10 cs 0

@[simp] theorem value_dec (n : Nat) : value (dec n) = n :=
  Nat.ofDigitChars_ten_toDigits

@[simp] theorem value_pad (width n : Nat) : value (pad width n) = n := by
  rw [value, pad, Nat.ofDigitChars_append, Nat.ofDigitChars_replicate_zero,
    Nat.mul_zero]
  exact value_dec n

theorem dec_ne_nil (n : Nat) : dec n ≠ [] := Nat.toDigits_ne_nil

theorem isDigit_dec {n : Nat} {c : Char} (h : c ∈ dec n) : c.isDigit = true :=
  Nat.isDigit_of_mem_toDigits (by decide) (by decide) h

theorem isDigit_pad {width n : Nat} {c : Char} (h : c ∈ pad width n) :
    c.isDigit = true := by
  rcases List.mem_append.mp h with h | h
  · rw [(List.mem_replicate.mp h).2]
    rfl
  · exact isDigit_dec h

theorem length_pad {width n : Nat} (h : (dec n).length ≤ width) :
    (pad width n).length = width := by
  rw [pad, List.length_append, List.length_replicate]
  omega

theorem digits_all {ds : List Char} (hds : ∀ c ∈ ds, c.isDigit = true) :
    ds.takeWhile Char.isDigit = ds ∧ ds.dropWhile Char.isDigit = [] := by
  induction ds with
  | nil => exact ⟨rfl, rfl⟩
  | cons c cs ih =>
      have hc := hds c List.mem_cons_self
      obtain ⟨htake, hdrop⟩ := ih fun c hc => hds c (List.mem_cons_of_mem _ hc)
      rw [List.takeWhile_cons_of_pos hc, List.dropWhile_cons_of_pos hc, htake]
      exact ⟨rfl, hdrop⟩

/-- Behind the digits of a text comes something else. -/
theorem digits_span {ds : List Char} (hds : ∀ c ∈ ds, c.isDigit = true)
    {c : Char} (hc : c.isDigit = false) (rest : List Char) :
    (ds ++ c :: rest).takeWhile Char.isDigit = ds := by
  rw [List.takeWhile_append_of_pos hds, List.takeWhile_cons_of_neg (by simp [hc]),
    List.append_nil]

theorem digits_split {ds es : List Char} (hds : ∀ c ∈ ds, c.isDigit = true)
    (hes : ∀ c ∈ es, c.isDigit = true) {c : Char} (hc : c.isDigit = false)
    {rest more : List Char} (h : ds ++ c :: rest = es ++ c :: more) :
    ds = es ∧ rest = more := by
  have heq : ds = es := by
    rw [← digits_span hds hc rest, h, digits_span hes hc more]
  refine ⟨heq, ?_⟩
  rw [heq] at h
  exact (List.cons.inj (List.append_cancel_left h)).2

end Decimal
