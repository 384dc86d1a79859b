import Mathlib.Algebra.Group.Nat.Defs

/-!
# Fixed-width big-endian numbers

`appendBe w v` is the `w` bytes a loop of shifts writes for `v`, most
significant first, and `readBe w` is the loop that reads them back into a
`w`-byte register, `v = (v << 8) | b` one byte at a time. The two are inverse
in both directions: a number that fits in `w` bytes survives being written,
and `w` bytes survive being read. Which width is used where is a codec's own
business.

The register is what makes the reading loop awkward, since it truncates at
every turn. `value` is the same fold without one, and the two agree up to the
width (`readBe_eq`), so everything below is proved about `value`.
-/

namespace BigEndian

/-- The low `w` bytes of `v`, most significant first: the loop
`for (shift = (w - 1) * 8; shift >= 0; shift -= 8)`. -/
def appendBe : Nat → Nat → List UInt8
  | 0, _ => []
  | w + 1, v => UInt8.ofNat (v >>> (8 * w)) :: appendBe w v

/-- One turn of the reading loop, in a register of `w` bytes. -/
def shiftIn (w v : Nat) (b : UInt8) : Nat :=
  ((v <<< 8) ||| b.toNat) % 2 ^ (8 * w)

/-- The reading loop over bytes `bs`, from a cleared register of `w` bytes. -/
def readBe (w : Nat) (bs : List UInt8) : Nat :=
  bs.foldl (shiftIn w) 0

/-- The number `bs` spells, with no register to overflow. -/
def value : List UInt8 → Nat
  | [] => 0
  | b :: bs => b.toNat * 2 ^ (8 * bs.length) + value bs

@[simp] theorem appendBe_length (w v : Nat) : (appendBe w v).length = w := by
  induction w with
  | zero => rfl
  | succ w ih => rw [appendBe, List.length_cons, ih]

theorem value_lt (bs : List UInt8) : value bs < 2 ^ (8 * bs.length) := by
  induction bs with
  | nil => simp [value]
  | cons b bs ih =>
      have hb : b.toNat + 1 ≤ 2 ^ 8 := b.toNat_lt
      have hmul := Nat.mul_le_mul_right (2 ^ (8 * bs.length)) hb
      rw [value, List.length_cons, Nat.mul_succ, Nat.pow_add, Nat.mul_comm _ (2 ^ 8)]
      rw [Nat.add_mul] at hmul
      omega

/-! ## The reading loop -/

/-- Or-ing in a number below the lowest set bit adds it. -/
theorem or_eq_add (a k : Nat) {b : Nat} (h : b < 2 ^ k) :
    a * 2 ^ k ||| b = a * 2 ^ k + b := by
  rw [Nat.mul_comm]
  exact (Nat.two_pow_add_eq_or_of_lt h a).symm

theorem shiftIn_eq (w v : Nat) (b : UInt8) :
    shiftIn w v b = (v * 2 ^ 8 + b.toNat) % 2 ^ (8 * w) := by
  rw [shiftIn, Nat.shiftLeft_eq, or_eq_add v 8 b.toNat_lt]

/-- The register holds, modulo its width, what it started with shifted past
the bytes read since. -/
theorem foldl_shiftIn (w : Nat) (bs : List UInt8) (v : Nat) :
    bs.foldl (shiftIn w) v % 2 ^ (8 * w) =
      (v * 2 ^ (8 * bs.length) + value bs) % 2 ^ (8 * w) := by
  induction bs generalizing v with
  | nil => simp [value]
  | cons b bs ih =>
      have hexp : 2 ^ (8 * (bs.length + 1)) = 2 ^ 8 * 2 ^ (8 * bs.length) := by
        rw [Nat.mul_succ, Nat.pow_add, Nat.mul_comm]
      rw [List.foldl_cons, ih, shiftIn_eq, value, List.length_cons, hexp]
      rw [Nat.add_mod, Nat.mod_mul_mod, ← Nat.add_mod]
      rw [Nat.add_mul, Nat.mul_assoc, Nat.add_assoc]

theorem foldl_shiftIn_lt (w : Nat) (bs : List UInt8) {v : Nat}
    (hv : v < 2 ^ (8 * w)) : bs.foldl (shiftIn w) v < 2 ^ (8 * w) := by
  induction bs generalizing v with
  | nil => exact hv
  | cons b bs ih => exact ih (Nat.mod_lt _ (Nat.two_pow_pos _))

theorem readBe_lt (w : Nat) (bs : List UInt8) : readBe w bs < 2 ^ (8 * w) :=
  foldl_shiftIn_lt w bs (Nat.two_pow_pos _)

/-- Reading exactly `w` bytes into a `w`-byte register loses nothing. -/
theorem readBe_eq {w : Nat} {bs : List UInt8} (h : bs.length = w) :
    readBe w bs = value bs := by
  have hlt : value bs < 2 ^ (8 * w) := h ▸ value_lt bs
  have hmod := foldl_shiftIn w bs 0
  rw [Nat.zero_mul, Nat.zero_add, Nat.mod_eq_of_lt hlt] at hmod
  rw [← hmod]
  exact (Nat.mod_eq_of_lt (readBe_lt w bs)).symm

/-! ## The two are inverse -/

theorem value_appendBe (w v : Nat) : value (appendBe w v) = v % 2 ^ (8 * w) := by
  induction w with
  | zero => simp [appendBe, value, Nat.mod_one]
  | succ w ih =>
      rw [appendBe, value, ih, appendBe_length, UInt8.toNat_ofNat',
        Nat.shiftRight_eq_div_pow, Nat.mul_succ, Nat.pow_add,
        Nat.mod_mul, Nat.mul_comm, Nat.add_comm]

/-- A number that fits in `w` bytes survives being written and read. -/
theorem readBe_appendBe {w v : Nat} (h : v < 2 ^ (8 * w)) :
    readBe w (appendBe w v) = v := by
  rw [readBe_eq (appendBe_length w v), value_appendBe, Nat.mod_eq_of_lt h]

theorem value_inj {as bs : List UInt8} (hlen : as.length = bs.length)
    (h : value as = value bs) : as = bs := by
  induction as generalizing bs with
  | nil => exact (List.length_eq_zero_iff.mp hlen.symm).symm
  | cons a as ih =>
      obtain _ | ⟨b, bs⟩ := bs
      · cases hlen
      · have hlen' : as.length = bs.length := by simpa using hlen
        have ha := value_lt as
        have hb := value_lt bs
        rw [value, value, hlen'] at h
        rw [hlen'] at ha
        -- The head is the quotient by the tail's weight, the tail the rest.
        have hhead : a.toNat = b.toNat := by
          have hdiv := congrArg (· / 2 ^ (8 * bs.length)) h
          simp only [Nat.mul_comm _ (2 ^ (8 * bs.length)),
            Nat.mul_add_div (Nat.two_pow_pos (8 * bs.length)),
            Nat.div_eq_of_lt ha, Nat.div_eq_of_lt hb, Nat.add_zero] at hdiv
          exact hdiv
        have htail : value as = value bs := by rw [hhead] at h; omega
        rw [UInt8.toNat_inj.mp hhead, ih hlen' htail]

/-- And `w` bytes survive being read and written. -/
theorem appendBe_readBe {w : Nat} {bs : List UInt8} (h : bs.length = w) :
    appendBe w (readBe w bs) = bs := by
  have hlt : value bs < 2 ^ (8 * w) := h ▸ value_lt bs
  refine value_inj (by rw [appendBe_length, h]) ?_
  rw [value_appendBe, readBe_eq h, Nat.mod_eq_of_lt hlt]

end BigEndian
