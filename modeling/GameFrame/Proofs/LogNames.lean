import GameFrame.Lib.Volumes
import GameFrame.LogServer.LogFile

/-!
# The names of the log's files

Day and number are read off a name: two files of one name are one file
(`makeFilename_inj`), and a name begins like those of a day only if it is of
that day (`filePrefix_iff`). So `scan_today_max_seq` finds the numbers of that
day and no others, and of volumes that were begun one behind the other it
returns that of the newest, if it is of the day and is not above a million
(`scan_newest`).
-/

namespace GameFrame

open Decimal (dec pad)

namespace LocalDate

theorem todayStr_digits (d : LocalDate) : ∀ c ∈ d.todayStr, c.isDigit = true := by
  intro c hc
  rcases List.mem_append.mp hc with hc | hc
  · rcases List.mem_append.mp hc with hc | hc
    · exact Decimal.isDigit_dec hc
    · exact Decimal.isDigit_pad hc
  · exact Decimal.isDigit_pad hc

theorem todayStr_ne_nil (d : LocalDate) : d.todayStr ≠ [] := by
  simp [todayStr, Decimal.dec_ne_nil]

theorem todayStr_injective {d d' : LocalDate} (h : d.todayStr = d'.todayStr) :
    d = d' := by
  have hpad : ∀ {n : Nat}, n < 100 → (pad 2 n).length = 2 := by
    intro n hn
    refine Decimal.length_pad ?_
    exact (Nat.length_toDigits_le_iff (by decide) (by decide)).mpr hn
  have hmonth : ∀ d : LocalDate, (pad 2 d.month).length = 2 :=
    fun d => hpad (Nat.lt_of_le_of_lt d.month_le (by decide))
  have hday : ∀ d : LocalDate, (pad 2 d.day).length = 2 :=
    fun d => hpad (Nat.lt_of_le_of_lt d.day_le (by decide))
  have hvalue : ∀ {w m n : Nat}, pad w m = pad w n → m = n := by
    intro w m n h
    simpa using congrArg Decimal.value h
  obtain ⟨hrest, hd⟩ := List.append_inj' h ((hday d).trans (hday d').symm)
  obtain ⟨hy, hm⟩ := List.append_inj' hrest ((hmonth d).trans (hmonth d').symm)
  have hy' : d.year = d'.year := by simpa using congrArg Decimal.value hy
  have hnum : d.num = d'.num := by
    rw [num, num, hy', hvalue hm, hvalue hd]
  exact num_injective hnum

end LocalDate

namespace LogFile

/-! ## One name, one day and number -/

theorem filePrefix_split {config : LogConfig} {d d' : LocalDate}
    {rest more : List Char}
    (h : filePrefix config d.todayStr ++ rest =
      filePrefix config d'.todayStr ++ more) : d = d' ∧ rest = more := by
  simp only [filePrefix, List.append_assoc, List.append_cancel_left_eq] at h
  obtain ⟨hday, hrest⟩ := Decimal.digits_split d.todayStr_digits
    d'.todayStr_digits (c := '.') (by decide) h
  exact ⟨LocalDate.todayStr_injective hday, by simpa using hrest⟩

theorem makeFilename_inj {config : LogConfig} {d d' : LocalDate} {n n' : Nat}
    (h : makeFilename config d.todayStr n = makeFilename config d'.todayStr n') :
    d = d' ∧ n = n' := by
  obtain ⟨hday, hseq⟩ := filePrefix_split h
  exact ⟨hday, by simpa using congrArg Decimal.value hseq⟩

theorem filePrefix_iff {config : LogConfig} {d d' : LocalDate} {n : Nat} :
    filePrefix config d.todayStr <+: makeFilename config d'.todayStr n ↔
      d' = d := by
  constructor
  · rintro ⟨rest, h⟩
    exact (filePrefix_split h).1.symm
  · rintro rfl
    exact List.prefix_append _ _

/-- The iterator comes upon it. -/
theorem makeFilename_plain (config : LogConfig) (d : LocalDate) (n : Nat) :
    '/' ∉ makeFilename config d.todayStr n := by
  have hdigit : ∀ {cs : List Char}, (∀ c ∈ cs, c.isDigit = true) → '/' ∉ cs :=
    fun hcs h => absurd (hcs _ h) (by decide)
  have hday := hdigit d.todayStr_digits
  have hseq := hdigit fun _ hc => Decimal.isDigit_dec (n := n) hc
  simp [makeFilename, filePrefix, config.plain, hday, hseq]

/-! ## Reading a number back -/

/-- A number has neither a blank in front nor a sign. -/
theorem sign_digit {c : Char} (hc : c.isDigit = true) (cs : List Char) :
    sign ((c :: cs).dropWhile isSpace) = (false, c :: cs) := by
  have hlow : 48 ≤ c.toNat := (Char.isDigit_iff_toNat.mp hc).1
  have hne : c ≠ ' ' := by
    rintro rfl
    exact absurd hlow (by decide)
  have hspace : isSpace c = false := by
    simp only [isSpace, hne, decide_false, Bool.false_or, Bool.and_eq_false_iff,
      decide_eq_false_iff_not]
    omega
  rw [List.dropWhile_cons_of_neg (by simp [hspace]), sign.eq_def]
  split
  · next heq =>
      cases heq
      cases hc
  · next heq =>
      cases heq
      cases hc
  · rfl

theorem strtol_dec {n : Nat} (hn : n ≤ 1000000) :
    strtol (dec n) = some ((n : Int), []) := by
  have hall : ∀ c ∈ dec n, c.isDigit = true := fun _ => Decimal.isDigit_dec
  obtain ⟨htake, hdrop⟩ := Decimal.digits_all hall
  have hvalue := Decimal.value_dec n
  have hlong : toLong (n : Int) = n := by
    rw [toLong, if_neg (by omega), if_neg (by omega)]
  cases hdec : dec n with
  | nil => exact absurd hdec (Decimal.dec_ne_nil n)
  | cons c cs =>
      rw [hdec] at htake hdrop hvalue
      rw [strtol, sign_digit (hall c (by simp [hdec]))]
      simp only [htake, hdrop, hvalue, List.cons_ne_nil, if_false,
        Bool.false_eq_true, hlong]

theorem fileSeq_same (config : LogConfig) (d : LocalDate) {n : Nat}
    (hpos : 0 < n) (hn : n ≤ 1000000) :
    fileSeq (filePrefix config d.todayStr) (makeFilename config d.todayStr n) =
      some n := by
  have hlt : ¬ (makeFilename config d.todayStr n).length ≤
      (filePrefix config d.todayStr).length := by
    have := List.length_pos_iff.mpr (Decimal.dec_ne_nil n)
    rw [makeFilename, List.length_append]
    omega
  rw [fileSeq, if_neg hlt, makeFilename, List.take_left, List.drop_left,
    if_neg (by simp), strtol_dec hn]
  simp
  omega

theorem fileSeq_other (config : LogConfig) {d d' : LocalDate} (hne : d' ≠ d)
    (n : Nat) :
    fileSeq (filePrefix config d.todayStr) (makeFilename config d'.todayStr n) =
      none := by
  rw [fileSeq]
  split
  · rfl
  · rw [if_pos]
    intro htake
    have hname : filePrefix config d.todayStr <+:
        makeFilename config d'.todayStr n := by
      rw [← htake]
      exact List.take_prefix _ _
    exact hne (filePrefix_iff.mp hname)

/-! ## The newest file of a day -/

def nameOf (config : LogConfig) (v : Volume LocalDate UInt8) : List Char :=
  makeFilename config v.day.todayStr v.seq

/-- The number of the newest volume, if it is of that day. -/
def newest (d : LocalDate) : List (Volume LocalDate UInt8) → Nat
  | [] => 0
  | v :: _ => if v.day = d then v.seq else 0

theorem newest_later {d : LocalDate} {vs : List (Volume LocalDate UInt8)}
    (h : ∀ v ∈ vs, v.day < d) : newest d vs = 0 := by
  cases vs with
  | nil => rfl
  | cons v vs => exact if_neg (ne_of_lt (h v List.mem_cons_self))

theorem scan_newest {config : LogConfig} {dir : Directory} {cap : Nat}
    {d : LocalDate} {vs : List (Volume LocalDate UInt8)}
    (hrolled : Volume.Rolled cap vs)
    (hnames : dir.names = vs.reverse.map (nameOf config))
    (hday : ∀ v ∈ vs, v.day ≤ d)
    (hfew : ∀ v ∈ vs, v.day = d → v.seq ≤ 1000000) :
    scanTodayMaxSeq config dir d.todayStr = newest d vs := by
  have hiter : dir.iterator = vs.reverse.map (nameOf config) := by
    rw [Directory.iterator, hnames, List.filter_eq_self]
    intro name hname
    obtain ⟨v, -, rfl⟩ := List.mem_map.mp hname
    have hplain := makeFilename_plain config v.day v.seq
    simpa [nameOf] using hplain
  rw [scanTodayMaxSeq, hiter]
  clear hiter hnames
  induction hrolled with
  | nil => rfl
  | @day vs d' data _ hlater ih =>
      rw [List.reverse_cons, List.map_append, List.foldl_append,
        ih (fun v hv => hday v (List.mem_cons_of_mem _ hv))
          (fun v hv => hfew v (List.mem_cons_of_mem _ hv))]
      have hle : d' ≤ d := hday ⟨d', 1, data⟩ List.mem_cons_self
      have hnone : newest d vs = 0 :=
        newest_later fun v hv => lt_of_lt_of_le (hlater v hv) hle
      rw [hnone]
      by_cases h : d' = d
      · subst h
        simp [nameOf, newest, fileSeq_same]
      · simp [nameOf, newest, fileSeq_other config h, h]
  | @next v vs data _ _ ih =>
      rw [List.reverse_cons, List.map_append, List.foldl_append,
        ih (fun v hv => hday v (List.mem_cons_of_mem _ hv))
          (fun v hv => hfew v (List.mem_cons_of_mem _ hv))]
      by_cases h : v.day = d
      · have hle := hfew _ List.mem_cons_self h
        subst h
        simp [nameOf, newest, fileSeq_same _ _ (Nat.succ_pos v.seq) hle]
      · simp [nameOf, newest, fileSeq_other config h, h]

end LogFile

end GameFrame
