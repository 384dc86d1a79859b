import GameFrame.Proofs.LogTargets

/-!
# A line of the log in two files

`append` is to be given one whole record, and looks before it writes whether
another file is due. `append_line` gives it the line in three pieces, and so
there are two moments within a line at which the next file may be begun. The
line is in one piece if there was room for all of it but the newline, and the
day was the same for the three (`whole_iff`).
-/

namespace GameFrame

namespace LogFile

open LogDir (nameAt)

/-- The line that `append_line` makes. -/
def line (now : LocalTime) (payload : List UInt8) : List UInt8 :=
  now.prefixLine ++ payload ++ bytesOf ['\n']

/-- All of the line is in one file, in one piece. -/
def Whole (f : LogFile) (dir : Directory) (now : LocalTime)
    (payload : List UInt8) (c₁ c₂ c₃ : Call) : Prop :=
  ∃ name, ∀ other,
    fileBytes (f.appendLine dir now payload c₁ c₂ c₃).2
        (f.appendLine dir now payload c₁ c₂ c₃).1.fp other =
      fileBytes dir f.fp other ++ if other = name then line now payload else []

/-- The day does not change, and the file that the line is begun in has room
for all of it but the newline. The other way is that of a line without payload:
the day changes behind the prefix and changes back, and finds the same file
again, the first of the day. -/
def Fits (f : LogFile) (dir : Directory) (k : LocalDate × Nat) (now : LocalTime)
    (payload : List UInt8) (c₁ c₂ c₃ : Call) : Prop :=
  let k₁ := target f.config.rollSize f.writtenBytes k c₁.today
  c₃.today = c₁.today ∧
    (c₂.today = c₁.today ∧
        (fileBytes dir f.fp (nameAt f.config k₁)).length +
          now.prefixLine.length + payload.length < f.config.rollSize ∨
      c₂.today ≠ c₁.today ∧ payload = [] ∧ k₁.2 = 1)

instance (f : LogFile) (dir : Directory) (k : LocalDate × Nat) (now : LocalTime)
    (payload : List UInt8) (c₁ c₂ c₃ : Call) :
    Decidable (Fits f dir k now payload c₁ c₂ c₃) :=
  inferInstanceAs (Decidable (_ ∧ (_ ∧ _ ∨ _ ∧ _ ∧ _)))

/-! ## Three pieces -/

theorem prefixLine_ne_nil (now : LocalTime) : now.prefixLine ≠ [] := by
  simp [LocalTime.prefixLine, bytesOf]

/-- Pieces of which the first and the last are not empty are in one place if
there is but one place. -/
theorem pieces_iff (n₁ n₂ n₃ : List Char) {p r : List UInt8} (q : List UInt8)
    (hp : p ≠ []) (hr : r ≠ []) :
    (∃ name : List Char, ∀ other : List Char,
      (if other = n₁ then p else []) ++ (if other = n₂ then q else []) ++
        (if other = n₃ then r else []) =
      if other = name then p ++ q ++ r else []) ↔
    (n₂ = n₁ ∨ q = []) ∧ n₃ = n₁ := by
  constructor
  · rintro ⟨name, hall⟩
    have hfirst : n₁ = name := by
      by_contra hne
      have h := hall n₁
      rw [if_neg hne, if_pos rfl] at h
      simp [hp] at h
    have hlast : n₃ = name := by
      by_contra hne
      have h := hall n₃
      rw [if_neg hne, if_pos rfl] at h
      simp [hr] at h
    refine ⟨?_, hlast.trans hfirst.symm⟩
    by_cases hmid : n₂ = name
    · exact .inl (hmid.trans hfirst.symm)
    · have h := hall n₂
      rw [if_neg hmid, if_pos rfl] at h
      simp only [List.append_eq_nil_iff] at h
      exact .inr h.1.2
  · rintro ⟨rfl | rfl, rfl⟩
    · refine ⟨n₃, fun other => ?_⟩
      split
      · rfl
      · rfl
    · refine ⟨n₃, fun other => ?_⟩
      split
      · simp
      · simp

/-- Where the three pieces go. What the last one finds in the file that is open
by then is known here only if that is the one the line was begun in. -/
theorem appendLine_lands {f : LogFile} {dir : Directory} {k : LocalDate × Nat}
    {c₁ c₂ c₃ : Call} (h₁ : c₁.io.Served) (h₂ : c₂.io.Served)
    (h₃ : c₃.io.Served) (h : Open f dir k) (now : LocalTime)
    (payload : List UInt8) {k₁ : LocalDate × Nat}
    (hk₁ : k₁ = target f.config.rollSize f.writtenBytes k c₁.today) {size : Nat}
    (hsize : size = (fileBytes dir f.fp (nameAt f.config k₁)).length +
      now.prefixLine.length) :
    ∃ size₂ k₂ k₃, k₂ = target f.config.rollSize size k₁ c₂.today ∧
      k₃ = target f.config.rollSize size₂ k₂ c₃.today ∧
      (k₂ = k₁ → size₂ = size + payload.length) ∧
      ∀ other,
        fileBytes (f.appendLine dir now payload c₁ c₂ c₃).2
            (f.appendLine dir now payload c₁ c₂ c₃).1.fp other =
          fileBytes dir f.fp other ++
            ((if other = nameAt f.config k₁ then now.prefixLine else []) ++
              (if other = nameAt f.config k₂ then payload else []) ++
              (if other = nameAt f.config k₃ then bytesOf ['\n'] else [])) := by
  have hr₁ := append_reaches h₁ h now.prefixLine
  rw [← hk₁] at hr₁
  rw [appendLine]
  revert hr₁
  generalize f.append dir c₁ now.prefixLine = r₁
  intro hr₁
  dsimp only
  have hr₂ := append_reaches h₂ hr₁.opened payload
  have hwritten₁ := hr₁.written
  rw [hr₁.same, hwritten₁, ← hsize] at hr₂
  obtain ⟨k₂, hk₂⟩ : ∃ k₂, k₂ = target f.config.rollSize size k₁ c₂.today :=
    ⟨_, rfl⟩
  rw [← hk₂] at hr₂
  revert hr₂
  generalize r₁.1.append r₁.2 c₂ payload = r₂
  intro hr₂
  have hr₃ := append_reaches h₃ hr₂.opened (bytesOf ['\n'])
  rw [hr₂.same] at hr₃
  refine ⟨r₂.1.writtenBytes, k₂, _, hk₂, rfl, ?_, fun other => ?_⟩
  · rintro rfl
    rw [hr₂.written, hr₁.bytes, if_pos rfl, List.length_append, hsize]
  · rw [hr₃.bytes, hr₂.bytes, hr₁.bytes]
    simp only [List.append_assoc]

/-- Neither the prefix nor the newline is empty, but the payload may be. -/
theorem whole_iff_targets {f : LogFile} {dir : Directory}
    {k₁ k₂ k₃ : LocalDate × Nat} {now : LocalTime} {payload : List UInt8}
    {c₁ c₂ c₃ : Call}
    (hbytes : ∀ other,
      fileBytes (f.appendLine dir now payload c₁ c₂ c₃).2
          (f.appendLine dir now payload c₁ c₂ c₃).1.fp other =
        fileBytes dir f.fp other ++
          ((if other = nameAt f.config k₁ then now.prefixLine else []) ++
            (if other = nameAt f.config k₂ then payload else []) ++
            (if other = nameAt f.config k₃ then bytesOf ['\n'] else []))) :
    Whole f dir now payload c₁ c₂ c₃ ↔ (k₂ = k₁ ∨ payload = []) ∧ k₃ = k₁ := by
  have hnewline : bytesOf ['\n'] ≠ [] := by decide
  have hpieces := pieces_iff (nameAt f.config k₁) (nameAt f.config k₂)
    (nameAt f.config k₃) payload (prefixLine_ne_nil now) hnewline
  simp only [(nameAt_injective f.config).eq_iff] at hpieces
  rw [← hpieces, Whole]
  simp only [hbytes, List.append_cancel_left_eq, line]

/-- The file that is open is written to again. -/
theorem target_eq_self {cap size : Nat} {k : LocalDate × Nat} {d : LocalDate} :
    target cap size k d = k ↔ d = k.1 ∧ size < cap := by
  constructor
  · intro h
    have hday : d = k.1 := by
      rw [← h]
      exact target_day.symm
    refine ⟨hday, Nat.lt_of_not_le fun hfull => ?_⟩
    rw [target_full hday hfull] at h
    have hseq : k.2 + 1 = k.2 := congrArg Prod.snd h
    omega
  · rintro ⟨hday, hroom⟩
    exact target_room hday hroom

/-- A number that was left for the next is not come back to on the same day. -/
theorem target_next_ne {cap size : Nat} {k : LocalDate × Nat} {d : LocalDate} :
    target cap size (k.1, k.2 + 1) d ≠ k := by
  intro h
  have hday : d = k.1 := by
    rw [← h]
    exact target_day.symm
  have hseq := @le_target cap size (k.1, k.2 + 1) d
    hday
  rw [h] at hseq
  have hseq : k.2 + 1 ≤ k.2 := hseq
  omega

theorem targets_iff {cap size size₂ : Nat} {k₁ k₂ k₃ : LocalDate × Nat}
    {d₂ d₃ : LocalDate} {payload : List UInt8}
    (hk₂ : k₂ = target cap size k₁ d₂) (hk₃ : k₃ = target cap size₂ k₂ d₃)
    (hsize₂ : k₂ = k₁ → size₂ = size + payload.length) :
    (k₂ = k₁ ∨ payload = []) ∧ k₃ = k₁ ↔
      d₃ = k₁.1 ∧ (d₂ = k₁.1 ∧ size + payload.length < cap ∨
        d₂ ≠ k₁.1 ∧ payload = [] ∧ k₁.2 = 1) := by
  by_cases hday : d₂ = k₁.1
  · by_cases hfull : cap ≤ size
    · -- the payload begins the next file
      rw [target_full hday hfull] at hk₂
      have hne : k₃ ≠ k₁ := by
        rw [hk₃, hk₂]
        exact target_next_ne
      refine iff_of_false (fun h => hne h.2) ?_
      rintro ⟨-, ⟨-, hroom⟩ | ⟨hother, -⟩⟩
      · omega
      · exact hother hday
    · -- it goes behind the prefix, and only the newline is open
      rw [target_room hday (by omega)] at hk₂
      rw [hk₂, hsize₂ hk₂] at hk₃
      rw [hk₂, hk₃, target_eq_self]
      simp [hday]
  · -- it is of another day
    rw [target_other hday] at hk₂
    have hne : k₂ ≠ k₁ := by
      rintro rfl
      exact hday (congrArg Prod.fst hk₂).symm
    have hback : k₃ = k₁ ↔ d₃ = k₁.1 ∧ k₁.2 = 1 := by
      by_cases hday₃ : d₃ = d₂
      · refine iff_of_false ?_ fun h => hday (hday₃.symm.trans h.1)
        rintro rfl
        rw [hk₃] at hday
        exact hday (hday₃.symm.trans target_day.symm)
      · rw [hk₃, hk₂, target_other hday₃, Prod.ext_iff]
        exact and_congr_right fun _ => eq_comm
    rw [hback]
    simp only [hne, hday, false_or, false_and, ne_eq, not_false_eq_true, true_and]
    tauto

/-- A line is whole just in case it fits. -/
theorem whole_iff {f : LogFile} {dir : Directory} {k : LocalDate × Nat}
    {c₁ c₂ c₃ : Call} (h₁ : c₁.io.Served) (h₂ : c₂.io.Served)
    (h₃ : c₃.io.Served) (h : Open f dir k) (now : LocalTime)
    (payload : List UInt8) :
    Whole f dir now payload c₁ c₂ c₃ ↔ Fits f dir k now payload c₁ c₂ c₃ := by
  obtain ⟨size₂, k₂, k₃, hk₂, hk₃, hsize₂, hbytes⟩ :=
    appendLine_lands h₁ h₂ h₃ h now payload rfl rfl
  rw [whole_iff_targets hbytes, targets_iff hk₂ hk₃ hsize₂, target_day]
  exact Iff.rfl

def morning : LocalTime := ⟨march, 10, 0, 0, 0⟩

def inPages (rollSize : Nat) : LogConfig := ⟨['g', 'f'], rollSize, by decide⟩

theorem whole_iff_short :
    Whole (begun (inPages 28) (march, 1)).1
      (begun (inPages 28) (march, 1)).2 morning [104] ⟨march, {}⟩
      ⟨march, {}⟩ ⟨march, {}⟩ :=
  (whole_iff (by decide) (by decide) (by decide) (begun_open _ _) morning
    [104]).mpr (by decide +kernel)

/-- A line of 28 bytes, with 27 to a file: the newline is in the next. -/
theorem line_torn :
    ¬ ∀ (f : LogFile) (dir : Directory) (k : LocalDate × Nat) (now : LocalTime)
      (payload : List UInt8) (c₁ c₂ c₃ : Call), c₁.io.Served → c₂.io.Served →
      c₃.io.Served → Open f dir k → Whole f dir now payload c₁ c₂ c₃ := by
  intro hall
  obtain ⟨name, hname⟩ := hall _ _ (march, 1) morning [104]
    ⟨march, {}⟩ ⟨march, {}⟩ ⟨march, {}⟩ (by decide)
    (by decide) (by decide) (begun_open (inPages 27) _)
  have hfirst : nameAt (inPages 27) (march, 1) = name := by
    by_contra hne
    have h := hname (nameAt (inPages 27) (march, 1))
    rw [if_neg hne] at h
    exact absurd h (by decide +kernel)
  have hnext : nameAt (inPages 27) (march, 2) = name := by
    by_contra hne
    have h := hname (nameAt (inPages 27) (march, 2))
    rw [if_neg hne] at h
    exact absurd h (by decide +kernel)
  exact absurd (hfirst.trans hnext.symm) (by decide +kernel)

end LogFile

end GameFrame
