import GameFrame.Proofs.LogNames
import Mathlib.Data.List.Basic

/-!
# No byte of the log is lost

The files of a log, newest first, are volumes (`Keeps`): each was begun behind
the one before it, and what is in it, counting what is still in the buffer, is
what was written to it. A `LogFile` that is open writes to the newest
(`Writes`). `roll_if_needed` may begin another, and leaves alone what is
written (`rollIfNeeded_writes`); one that has no file open finds the newest
again, or begins the next (`rollIfNeeded_starts`). From there what was
appended is what is in the files, in the order of days and numbers, over any
number of restarts (`journal_kept`).
-/

namespace GameFrame

open Volume (Rolled journal)

/-- Nothing that is in a buffer is dropped. -/
structure FileIo.Kept (io : FileIo) : Prop where
  close : io.close = {}
  lost : io.lost = 0

/-- Nothing goes wrong. -/
structure FileIo.Ok (io : FileIo) : Prop where
  scan : io.scan = true
  candidateSize : io.candidateSize = true
  kept : io.Kept
  fopen : io.fopen = true
  openSize : io.openSize = true
  short : io.short = none

/-- What is in a file, and behind it what is in the buffer for it. -/
def fileBytes (dir : Directory) (fp : Option Stream) (name : List Char) :
    List UInt8 :=
  dir.content name ++
    match fp with
    | none => []
    | some fp => if fp.path = name then fp.buffer else []

/-- What `fwrite` does to a file, whatever of it goes through. -/
theorem fileBytes_write (dir : Directory) (fp : Stream) (data : List UInt8)
    (n : Nat) (name : List Char) :
    fileBytes (dir.write fp.path ((fp.buffer ++ data).take n))
      (some ⟨fp.path, (fp.buffer ++ data).drop n⟩) name =
    fileBytes dir (some fp) name ++ if fp.path = name then data else [] := by
  by_cases h : fp.path = name
  · subst h
    simp only [fileBytes, Directory.write, if_true]
    rw [List.append_assoc, List.take_append_drop, ← List.append_assoc]
  · simp [fileBytes, Directory.write, h, Ne.symm h]

theorem fileBytes_close (dir : Directory) (fp : Stream) (name : List Char) :
    fileBytes (dir.write fp.path fp.buffer) none name =
      fileBytes dir (some fp) name := by
  by_cases h : fp.path = name
  · subst h
    simp [fileBytes, Directory.write]
  · simp [fileBytes, Directory.write, h, Ne.symm h]

theorem fileBytes_empty (dir : Directory) (path name : List Char) :
    fileBytes dir (some ⟨path, []⟩) name = dir.content name := by
  simp [fileBytes]

theorem Directory.write_nil (dir : Directory) (path : List Char) :
    dir.write path [] = dir := by
  simp [Directory.write]

namespace LogFile

theorem close_none {f : LogFile} (hfp : f.fp = none) (dir : Directory)
    (res : CloseRes) : f.close dir res = (f, dir) := by
  rw [close, hfp]

/-- `fclose` finds nothing left to be written. -/
theorem close_ok {f : LogFile} {fp : Stream} (hfp : f.fp = some fp)
    (dir : Directory) :
    f.close dir {} = ({ f with fp := none }, dir.write fp.path fp.buffer) := by
  simp only [close, hfp, Stream.fflush, Directory.write_nil]

/-! ## The files are volumes -/

structure Keeps (config : LogConfig) (vs : List (Volume LocalDate UInt8))
    (dir : Directory) (fp : Option Stream) : Prop where
  rolled : Rolled config.rollSize vs
  names : dir.names = vs.reverse.map (nameOf config)
  bytes : ∀ v ∈ vs, fileBytes dir fp (nameOf config v) = v.data

variable {config : LogConfig} {vs : List (Volume LocalDate UInt8)}
  {v : Volume LocalDate UInt8} {dir : Directory}

/-- Two volumes have two names. -/
theorem nameOf_ne (h : Rolled config.rollSize (v :: vs)) :
    ∀ w ∈ vs, nameOf config v ≠ nameOf config w := by
  intro w hw heq
  obtain ⟨hday, hseq⟩ := makeFilename_inj heq
  rcases (List.pairwise_cons.mp h.ordered).1 w hw with hlt | ⟨-, hlt, -⟩
  · exact ne_of_lt hlt hday.symm
  · omega

theorem Keeps.close {fp : Stream} (h : Keeps config vs dir (some fp)) :
    Keeps config vs (dir.write fp.path fp.buffer) none where
  rolled := h.rolled
  names := h.names
  bytes := fun v hv => (fileBytes_close dir fp _).trans (h.bytes v hv)

/-- The newest file is opened again. -/
theorem Keeps.reopen (h : Keeps config vs dir none) (path : List Char) :
    Keeps config vs dir (some ⟨path, []⟩) where
  rolled := h.rolled
  names := h.names
  bytes := by
    intro v hv
    rw [fileBytes_empty, ← h.bytes v hv]
    simp [fileBytes]

/-- A file is opened that was not there. -/
theorem Keeps.create (h : Keeps config vs dir none)
    (hrolled : Rolled config.rollSize (v :: vs)) (hdata : v.data = []) :
    Keeps config (v :: vs) (dir.create (nameOf config v))
      (some ⟨nameOf config v, []⟩) := by
  have hne := nameOf_ne hrolled
  have hnew : nameOf config v ∉ dir.names := by
    rw [h.names]
    intro hmem
    obtain ⟨w, hw, heq⟩ := List.mem_map.mp hmem
    exact hne w (List.mem_reverse.mp hw) heq.symm
  rw [Directory.create, if_neg hnew]
  refine ⟨hrolled, ?_, fun w hw => ?_⟩
  · simp [h.names]
  · rw [fileBytes_empty]
    rcases List.mem_cons.mp hw with rfl | hw
    · simp [hdata]
    · have hold := h.bytes w hw
      simp only [fileBytes, List.append_nil] at hold
      simp only [if_neg (hne w hw).symm]
      exact hold

/-- A file with nothing to be written to it yet is as large as its volume. -/
theorem Keeps.fileSize {path : List Char}
    (h : Keeps config (v :: vs) dir (some ⟨path, []⟩)) :
    dir.fileSize (nameOf config v) = v.data.length := by
  have hbytes := h.bytes v List.mem_cons_self
  rw [fileBytes_empty] at hbytes
  rw [Directory.fileSize, hbytes]

/-- Something is written to the newest file. -/
theorem Keeps.write {buffer : List UInt8}
    (h : Keeps config (v :: vs) dir (some ⟨nameOf config v, buffer⟩))
    (data : List UInt8) (n : Nat) :
    Keeps config ({ v with data := v.data ++ data } :: vs)
      (dir.write (nameOf config v) ((buffer ++ data).take n))
      (some ⟨nameOf config v, (buffer ++ data).drop n⟩) := by
  have hbytes := fileBytes_write dir ⟨nameOf config v, buffer⟩ data n
  have hne := nameOf_ne h.rolled
  refine ⟨h.rolled.write data, ?_, fun w hw => ?_⟩
  · simp [Directory.write, h.names, nameOf]
  · rcases List.mem_cons.mp hw with rfl | hw
    · have hold := h.bytes v List.mem_cons_self
      exact (hbytes (nameOf config v)).trans (by rw [hold, if_pos rfl])
    · have hold := h.bytes w (List.mem_cons_of_mem _ hw)
      refine (hbytes (nameOf config w)).trans ?_
      rw [hold, if_neg (hne w hw), List.append_nil]

/-! ## Opening a file -/

/-- The file that is open is the newest. -/
structure Writes (f : LogFile) (dir : Directory) (v : Volume LocalDate UInt8)
    (vs : List (Volume LocalDate UInt8)) : Prop where
  keeps : Keeps f.config (v :: vs) dir f.fp
  fp : ∃ buffer, f.fp = some ⟨nameOf f.config v, buffer⟩
  date : f.currentDate = v.day.todayStr
  seq : f.currentSeq = v.seq
  written : f.writtenBytes = v.data.length

variable {f : LogFile} {io : FileIo}

/-- `close()` leaves the volumes as they are. -/
theorem close_keeps (h : Keeps f.config vs dir f.fp) :
    (f.close dir {}).1 = { f with fp := none } ∧
      Keeps f.config vs (f.close dir {}).2 none := by
  cases hfp : f.fp with
  | none =>
      rw [hfp] at h
      rw [close_none hfp]
      refine ⟨?_, h⟩
      rw [← hfp]
  | some fp =>
      rw [hfp] at h
      rw [close_ok hfp]
      exact ⟨rfl, h.close⟩

theorem openFile_eq (hio : io.Ok) (h : Keeps f.config vs dir f.fp) :
    f.openFile dir io =
      ({ f with
          fp := some ⟨makeFilename f.config f.currentDate f.currentSeq, []⟩
          writtenBytes := ((f.close dir {}).2.create
            (makeFilename f.config f.currentDate f.currentSeq)).fileSize
              (makeFilename f.config f.currentDate f.currentSeq) },
        (f.close dir {}).2.create
          (makeFilename f.config f.currentDate f.currentSeq)) := by
  simp [openFile, (close_keeps h).1, hio.kept.close, hio.fopen, hio.openSize]

/-- `open_file()` for a file that is not there. -/
theorem openFile_new (hio : io.Ok) (h : Keeps f.config vs dir f.fp)
    (hrolled : Rolled f.config.rollSize (v :: vs)) (hdata : v.data = [])
    (hdate : f.currentDate = v.day.todayStr) (hseq : f.currentSeq = v.seq) :
    Writes (f.openFile dir io).1 (f.openFile dir io).2 v vs := by
  have hname : makeFilename f.config f.currentDate f.currentSeq =
      nameOf f.config v := by
    rw [hdate, hseq, nameOf]
  have hkeeps := (close_keeps h).2.create hrolled hdata
  rw [openFile_eq hio h, hname]
  exact ⟨hkeeps, ⟨[], rfl⟩, hdate, hseq, hkeeps.fileSize⟩

/-- `open_file()` for the newest of those that are. -/
theorem openFile_newest (hio : io.Ok) (hfp : f.fp = none)
    (h : Keeps f.config (v :: vs) dir none)
    (hdate : f.currentDate = v.day.todayStr) (hseq : f.currentSeq = v.seq) :
    Writes (f.openFile dir io).1 (f.openFile dir io).2 v vs := by
  have hname : makeFilename f.config f.currentDate f.currentSeq =
      nameOf f.config v := by
    rw [hdate, hseq, nameOf]
  have hclose : (f.close dir {}).2 = dir := by rw [close_none hfp]
  have hthere : dir.create (nameOf f.config v) = dir := by
    refine if_pos ?_
    simp [h.names]
  rw [openFile_eq hio (by rw [hfp]; exact h), hname, hclose, hthere]
  have hkeeps := h.reopen (nameOf f.config v)
  exact ⟨hkeeps, ⟨[], rfl⟩, hdate, hseq, hkeeps.fileSize⟩

/-! ## Rolling -/

variable {today : LocalDate}

/-- On another day the first volume of the day is behind all there are. -/
theorem rolled_day {cap : Nat} (h : Rolled cap vs)
    (hday : ∀ w ∈ vs, w.day ≤ today)
    (hnew : ∀ w ∈ vs.head?, w.day ≠ today) :
    Rolled cap ((⟨today, 1, []⟩ : Volume LocalDate UInt8) :: vs) := by
  refine .day today [] h fun w hw => ?_
  cases vs with
  | nil => cases hw
  | cons v vs =>
      have hv : v.day < today :=
        lt_of_le_of_ne (hday v List.mem_cons_self) (hnew v rfl)
      rcases List.mem_cons.mp hw with rfl | hw
      · exact hv
      · rcases (List.pairwise_cons.mp h.ordered).1 w hw with hlt | ⟨heq, -, -⟩
        · exact lt_trans hlt hv
        · rw [heq]
          exact hv

/-- `roll_if_needed()` before a write. -/
theorem rollIfNeeded_writes (hio : io.Ok) (h : Writes f dir v vs)
    (hday : ∀ w ∈ v :: vs, w.day ≤ today) :
    ∃ v' vs', Writes (f.rollIfNeeded dir today io).1
        (f.rollIfNeeded dir today io).2 v' vs' ∧
      journal (v' :: vs') = journal (v :: vs) ∧
      ∀ w ∈ v' :: vs', w.day ≤ today := by
  have hdate : f.currentDate ≠ [] := by
    rw [h.date]
    exact v.day.todayStr_ne_nil
  obtain ⟨buffer, hfp⟩ := h.fp
  rw [rollIfNeeded]
  split
  · next hother =>
      -- another day
      have hne : v.day ≠ today := by
        rintro rfl
        exact hother.2 h.date.symm
      have hrolled := rolled_day h.keeps.rolled hday fun w hw => by
        cases hw
        exact hne
      refine ⟨⟨today, 1, []⟩, v :: vs, ?_, Volume.journal_begin _ _ _, ?_⟩
      · exact openFile_new (f := { f with
          currentDate := today.todayStr, currentSeq := 1 }) hio h.keeps hrolled
          rfl rfl rfl
      · exact List.forall_mem_cons.mpr ⟨le_refl _, hday⟩
  · split
    · next hfull =>
        have hcap : f.config.rollSize ≤ v.data.length := by
          rw [← h.written]
          exact hfull.2
        refine ⟨⟨v.day, v.seq + 1, []⟩, v :: vs, ?_, Volume.journal_begin _ _ _, ?_⟩
        · exact openFile_new (f := { f with currentSeq := f.currentSeq + 1 })
            hio h.keeps (.next [] h.keeps.rolled hcap) rfl h.date
            (congrArg (· + 1) h.seq)
        · exact List.forall_mem_cons.mpr ⟨hday v List.mem_cons_self, hday⟩
    · rw [if_neg (by simp [hfp])]
      exact ⟨v, vs, h, rfl, hday⟩

/-- On a new day a `LogFile` that has no file open begins with the first. -/
theorem firstSeq_day (hio : io.Ok) (hscan : scanTodayMaxSeq config dir
    today.todayStr = 0) :
    firstSeq { config } dir today.todayStr io = 1 := by
  simp [firstSeq, hio.scan, hscan]

/-- And else with the newest, or the next. -/
theorem firstSeq_newest (hio : io.Ok) (h : Keeps config (v :: vs) dir none)
    (hscan : scanTodayMaxSeq config dir v.day.todayStr = v.seq) :
    firstSeq { config } dir v.day.todayStr io =
      if v.data.length < config.rollSize then v.seq else v.seq + 1 := by
  have hpos := h.rolled.pos v List.mem_cons_self
  have hsize : dir.fileSize (makeFilename config v.day.todayStr v.seq) =
      v.data.length := (h.reopen []).fileSize
  rw [firstSeq, hio.scan, if_pos rfl]
  simp only [hscan, hio.candidateSize, hsize, true_and]
  rw [if_neg (by omega)]

theorem rollIfNeeded_new (config : LogConfig) (dir : Directory)
    (today : LocalDate) (io : FileIo) :
    rollIfNeeded { config } dir today io =
      openFile
        { config := config
          currentDate := today.todayStr
          currentSeq := firstSeq { config } dir today.todayStr io } dir io := by
  simp [rollIfNeeded]

/-- `roll_if_needed()` in the constructor. -/
theorem rollIfNeeded_starts (hio : io.Ok) (h : Keeps config vs dir none)
    (hday : ∀ w ∈ vs, w.day ≤ today)
    (hfew : ∀ w ∈ vs, w.day = today → w.seq ≤ 1000000) :
    ∃ v' vs', Writes (rollIfNeeded { config } dir today io).1
        (rollIfNeeded { config } dir today io).2 v' vs' ∧
      journal (v' :: vs') = journal vs ∧ ∀ w ∈ v' :: vs', w.day ≤ today := by
  have hscan := scan_newest h.rolled h.names hday hfew
  rw [rollIfNeeded_new]
  by_cases hnew : ∀ w ∈ vs.head?, w.day ≠ today
  · have hnone : newest today vs = 0 := by
      cases vs with
      | nil => rfl
      | cons v vs => exact if_neg (hnew v rfl)
    refine ⟨⟨today, 1, []⟩, vs, ?_, Volume.journal_begin _ _ _, ?_⟩
    · exact openFile_new hio h (rolled_day h.rolled hday hnew) rfl rfl
        (firstSeq_day hio (hscan.trans hnone))
    · exact List.forall_mem_cons.mpr ⟨le_refl _, hday⟩
  · obtain ⟨v, hv, hsame⟩ : ∃ v ∈ vs.head?, v.day = today := by
      simpa using hnew
    obtain ⟨rest, rfl⟩ := List.head?_eq_some_iff.mp hv
    subst hsame
    have hfirst := firstSeq_newest hio h (hscan.trans (if_pos rfl))
    by_cases hroom : v.data.length < config.rollSize
    · rw [if_pos hroom] at hfirst
      exact ⟨v, rest, openFile_newest hio rfl h rfl hfirst, rfl, hday⟩
    · rw [if_neg hroom] at hfirst
      refine ⟨⟨v.day, v.seq + 1, []⟩, v :: rest, ?_, Volume.journal_begin _ _ _, ?_⟩
      · have hfull := Nat.le_of_not_lt hroom
        exact openFile_new hio h (.next [] h.rolled hfull) rfl rfl hfirst
      · exact List.forall_mem_cons.mpr ⟨le_refl _, hday⟩

/-! ## Writing -/

theorem close_config (f : LogFile) (dir : Directory) (res : CloseRes) :
    (f.close dir res).1.config = f.config := by
  rw [close]
  split
  · rfl
  · rfl

theorem openFile_config (f : LogFile) (dir : Directory) (io : FileIo) :
    (f.openFile dir io).1.config = f.config := by
  rw [openFile]
  dsimp only
  split
  · exact close_config f dir io.close
  · exact close_config f dir io.close

theorem flush_config (f : LogFile) (dir : Directory) (res : FlushRes) :
    (f.flush dir res).1.config = f.config := by
  rw [flush]
  split
  · rfl
  · rfl

theorem rollIfNeeded_config (f : LogFile) (dir : Directory) (today : LocalDate)
    (io : FileIo) : (f.rollIfNeeded dir today io).1.config = f.config := by
  rw [rollIfNeeded]
  repeat' split
  · exact openFile_config _ _ _
  · exact openFile_config _ _ _
  · exact openFile_config _ _ _
  · rfl

theorem append_config (f : LogFile) (dir : Directory) (c : Call)
    (data : List UInt8) : (f.append dir c data).1.config = f.config := by
  rw [append]
  dsimp only
  split
  · exact rollIfNeeded_config _ _ _ _
  · exact rollIfNeeded_config _ _ _ _

/-- `append` writes all of its data behind what there is. -/
theorem append_writes {c : Call} (hio : c.io.Ok) (h : Writes f dir v vs)
    (hday : ∀ w ∈ v :: vs, w.day ≤ c.today) (data : List UInt8) :
    ∃ v' vs', Writes (f.append dir c data).1 (f.append dir c data).2 v' vs' ∧
      journal (v' :: vs') = journal (v :: vs) ++ data ∧
      ∀ w ∈ v' :: vs', w.day ≤ c.today := by
  obtain ⟨v', vs', hroll, hjournal, hle⟩ := rollIfNeeded_writes hio h hday
  rw [append]
  revert hroll
  generalize f.rollIfNeeded dir c.today c.io = r
  obtain ⟨f', dir'⟩ := r
  intro hroll
  have hroll : Writes f' dir' v' vs' := hroll
  obtain ⟨buffer, hfp⟩ := hroll.fp
  have htaken : data.take (c.io.short.getD data.length) = data := by
    rw [hio.short]
    exact List.take_length
  simp only [hfp, htaken, hio.kept.lost, Nat.add_zero]
  have hkeeps := hroll.keeps
  rw [hfp] at hkeeps
  refine ⟨{ v' with data := v'.data ++ data }, vs', ?_, ?_, ?_⟩
  · refine ⟨hkeeps.write data c.io.through, ⟨_, rfl⟩, hroll.date, hroll.seq, ?_⟩
    rw [List.length_append, ← hroll.written]
  · rw [Volume.journal_cons, ← List.append_assoc, ← Volume.journal_cons, hjournal]
  · exact List.forall_mem_cons.mpr ⟨hle v' List.mem_cons_self,
      (List.forall_mem_cons.mp hle).2⟩

/-- `append_line` is three of them. -/
theorem appendLine_writes {c₁ c₂ c₃ : Call} (h₁ : c₁.io.Ok) (h₂ : c₂.io.Ok)
    (h₃ : c₃.io.Ok) (hle : c₁.today ≤ c₂.today) (hle' : c₂.today ≤ c₃.today)
    (h : Writes f dir v vs) (hday : ∀ w ∈ v :: vs, w.day ≤ c₁.today)
    (now : LocalTime) (payload : List UInt8) :
    ∃ v' vs', Writes (f.appendLine dir now payload c₁ c₂ c₃).1
        (f.appendLine dir now payload c₁ c₂ c₃).2 v' vs' ∧
      journal (v' :: vs') = journal (v :: vs) ++
        (now.prefixLine ++ payload ++ bytesOf ['\n']) ∧
      ∀ w ∈ v' :: vs', w.day ≤ c₃.today := by
  obtain ⟨v₁, vs₁, hw₁, hj₁, hd₁⟩ := append_writes h₁ h hday now.prefixLine
  obtain ⟨v₂, vs₂, hw₂, hj₂, hd₂⟩ := append_writes h₂ hw₁
    (fun w hw => le_trans (hd₁ w hw) hle) payload
  obtain ⟨v₃, vs₃, hw₃, hj₃, hd₃⟩ := append_writes h₃ hw₂
    (fun w hw => le_trans (hd₂ w hw) hle') (bytesOf ['\n'])
  refine ⟨v₃, vs₃, hw₃, ?_, hd₃⟩
  rw [hj₃, hj₂, hj₁, List.append_assoc, List.append_assoc, List.append_assoc]

theorem flush_writes (h : Writes f dir v vs) :
    Writes (f.flush dir .ok).1 (f.flush dir .ok).2 v vs := by
  obtain ⟨buffer, hfp⟩ := h.fp
  have hkeeps := h.keeps
  rw [hfp] at hkeeps
  simp only [flush, Stream.fflush, hfp]
  exact ⟨hkeeps.close.reopen _, ⟨[], rfl⟩, h.date, h.seq, h.written⟩

end LogFile

namespace LogDir

open LogFile (Keeps Writes Call makeFilename)

/-! ## Over restarts -/

/-- What is in a file, with what the process has still to write to it. -/
def bytes (s : LogDir) (name : List Char) : List UInt8 :=
  fileBytes s.dir (s.file.bind LogFile.fp) name

/-- How many files there are of a day. -/
def filesOf (s : LogDir) (d : LocalDate) : Nat :=
  (s.dir.names.filter fun name =>
    (LogFile.filePrefix s.config d.todayStr).isPrefixOf name).length

/-- A flush that does not fail. -/
def Label.Through : Label → Prop
  | .flush res => res = .ok
  | .destroy res => res = {}
  | .construct _ | .append _ _ | .appendLine _ _ _ _ _ => True

instance : ∀ l : Label, Decidable l.Through
  | .flush _ | .destroy _ => inferInstanceAs (Decidable (_ = _))
  | .construct _ | .append _ _ | .appendLine _ _ _ _ _ => .isTrue trivial

/-- Nothing goes wrong, the days do not go back, and there are fewer than a
million files of each. -/
def CallsOk (s : LogDir) (l : Label) : Prop :=
  (∀ c ∈ l.calls, c.io.Ok) ∧
  (s.clock.toList ++ l.calls.map Call.today).Pairwise (· ≤ ·) ∧
  (∀ c ∈ l.calls, s.filesOf c.today < 1000000) ∧ l.Through

instance (io : FileIo) : Decidable io.Kept :=
  decidable_of_iff (io.close = {} ∧ io.lost = 0)
    ⟨fun ⟨h₁, h₂⟩ => ⟨h₁, h₂⟩, fun ⟨h₁, h₂⟩ => ⟨h₁, h₂⟩⟩

instance (io : FileIo) : Decidable io.Ok :=
  decidable_of_iff (io.scan = true ∧ io.candidateSize = true ∧ io.Kept ∧
    io.fopen = true ∧ io.openSize = true ∧ io.short = none)
    ⟨fun ⟨h₁, h₂, h₃, h₄, h₅, h₆⟩ => ⟨h₁, h₂, h₃, h₄, h₅, h₆⟩,
      fun ⟨h₁, h₂, h₃, h₄, h₅, h₆⟩ => ⟨h₁, h₂, h₃, h₄, h₅, h₆⟩⟩

instance (s : LogDir) (l : Label) : Decidable (s.CallsOk l) :=
  inferInstanceAs (Decidable (_ ∧ _ ∧ _ ∧ _))

/-- The `LogFile` that is running, if there is one, writes to the newest of
the volumes. -/
def Running (s : LogDir) (vs : List (Volume LocalDate UInt8)) : Prop :=
  match s.file with
  | none => Keeps s.config vs s.dir none
  | some f => f.config = s.config ∧
      ∃ v rest, vs = v :: rest ∧ Writes f s.dir v rest

structure Recorded (s : LogDir) (vs : List (Volume LocalDate UInt8)) :
    Prop where
  running : s.Running vs
  journal : journal vs = s.appended
  clock : ∀ v ∈ vs, ∃ d ∈ s.clock, v.day ≤ d

theorem recorded_new (config : LogConfig) : (new config).Recorded [] where
  running := ⟨.nil, rfl, fun _ h => nomatch h⟩
  journal := rfl
  clock := fun _ h => nomatch h

theorem Recorded.keeps {s : LogDir} {vs : List (Volume LocalDate UInt8)}
    (h : s.Recorded vs) :
    Keeps s.config vs s.dir (s.file.bind LogFile.fp) := by
  have hrun := h.running
  rw [Running] at hrun
  split at hrun
  · next hnone =>
      rw [hnone]
      exact hrun
  · next f hf =>
      obtain ⟨hconfig, v, rest, rfl, hwrites⟩ := hrun
      rw [hf, ← hconfig]
      exact hwrites.keeps

/-- A number is not above how many files its day has. -/
theorem seq_le_filesOf {s : LogDir} {vs : List (Volume LocalDate UInt8)}
    {fp : Option Stream} (h : Keeps s.config vs s.dir fp)
    {v : Volume LocalDate UInt8} (hv : v ∈ vs) :
    v.seq ≤ s.filesOf v.day := by
  have hsame : s.filesOf v.day = (vs.filter fun w => w.day = v.day).length := by
    rw [filesOf, h.names, List.filter_map, List.length_map, List.filter_reverse,
      List.length_reverse]
    congr 1
    refine List.filter_congr fun w _ => ?_
    rw [Bool.eq_iff_iff]
    simp [LogFile.nameOf, LogFile.filePrefix_iff]
  rw [hsame]
  exact h.rolled.count v hv

/-- No volume is of a later day than a call may read. -/
theorem Recorded.days {s : LogDir} {vs : List (Volume LocalDate UInt8)}
    {l : Label} (hs : s.Recorded vs)
    (hdays : (s.clock.toList ++ l.calls.map Call.today).Pairwise (· ≤ ·)) :
    ∀ c ∈ l.calls, ∀ v ∈ vs, v.day ≤ c.today := by
  intro c hc v hv
  obtain ⟨d, hd, hle⟩ := hs.clock v hv
  refine le_trans hle ((List.pairwise_append.mp hdays).2.2 d ?_ c.today ?_)
  · simpa using hd
  · exact List.mem_map_of_mem hc

/-- A call that reads the clock leaves the newest volume to be written to. -/
theorem Recorded.enter {s : LogDir} {l : Label} {r : LogFile × Directory}
    {d : LocalDate} {v : Volume LocalDate UInt8}
    {vs : List (Volume LocalDate UInt8)} (hconfig : r.1.config = s.config)
    (hwrites : Writes r.1 r.2 v vs) (hday : ∀ w ∈ v :: vs, w.day ≤ d)
    (hlast : (l.calls.map Call.today).getLast? = some d)
    (hjournal : Volume.journal (v :: vs) = s.appended ++ l.data) :
    (s.enter l r).Recorded (v :: vs) where
  running := ⟨hconfig, v, vs, rfl, hwrites⟩
  journal := hjournal
  clock := by
    intro w hw
    refine ⟨d, ?_, hday w hw⟩
    rw [LogDir.enter, hlast]
    rfl

/-- One that does not leaves the volumes as they are. -/
theorem Recorded.same {s s' : LogDir} {vs : List (Volume LocalDate UInt8)}
    (hs : s.Recorded vs) (hrun : s'.Running vs)
    (happended : s'.appended = s.appended ++ []) (hclock : s'.clock = s.clock) :
    s'.Recorded vs where
  running := hrun
  journal := by rw [happended, List.append_nil, hs.journal]
  clock := by
    rw [hclock]
    exact hs.clock

theorem Recorded.construct {s : LogDir} {vs : List (Volume LocalDate UInt8)}
    {c : Call} (hs : s.Recorded vs) (hnone : s.file = none)
    (hok : s.CallsOk (.construct c)) :
    ∃ vs', (s.enter (.construct c) (LogFile.rollIfNeeded
      { config := s.config } s.dir c.today c.io)).Recorded vs' := by
  obtain ⟨hio, hdays, hfew, -⟩ := hok
  have hkeeps := hs.running
  simp only [Running, hnone] at hkeeps
  have hless : ∀ w ∈ vs, w.day = c.today → w.seq ≤ 1000000 := by
    intro w hw hsame
    have hseq := seq_le_filesOf hkeeps hw
    have hlt := hfew c List.mem_cons_self
    rw [hsame] at hseq
    omega
  obtain ⟨v, rest, hwrites, hjournal, hday⟩ := LogFile.rollIfNeeded_starts
    (hio c List.mem_cons_self) hkeeps (hs.days hdays c List.mem_cons_self) hless
  refine ⟨v :: rest, .enter ?_ hwrites hday rfl ?_⟩
  · exact LogFile.rollIfNeeded_config _ _ _ _
  · rw [hjournal, hs.journal]
    exact (List.append_nil _).symm

theorem Recorded.append {s : LogDir} {f : LogFile}
    {v : Volume LocalDate UInt8} {vs : List (Volume LocalDate UInt8)}
    {data : List UInt8} {c : Call} (hs : s.Recorded (v :: vs))
    (hconfig : f.config = s.config) (hwrites : Writes f s.dir v vs)
    (hok : s.CallsOk (.append data c)) :
    ∃ vs', (s.enter (.append data c) (f.append s.dir c data)).Recorded vs' := by
  obtain ⟨hio, hdays, -⟩ := hok
  obtain ⟨v', rest, hwrites', hjournal, hday⟩ := LogFile.append_writes
    (hio c List.mem_cons_self) hwrites (hs.days hdays c List.mem_cons_self) data
  refine ⟨v' :: rest, .enter ?_ hwrites' hday rfl ?_⟩
  · exact (LogFile.append_config _ _ _ _).trans hconfig
  · rw [hjournal, hs.journal]
    rfl

theorem Recorded.appendLine {s : LogDir} {f : LogFile}
    {v : Volume LocalDate UInt8} {vs : List (Volume LocalDate UInt8)}
    {now : LocalTime} {payload : List UInt8} {c₁ c₂ c₃ : Call}
    (hs : s.Recorded (v :: vs)) (hconfig : f.config = s.config)
    (hwrites : Writes f s.dir v vs)
    (hok : s.CallsOk (.appendLine now payload c₁ c₂ c₃)) :
    ∃ vs', (s.enter (.appendLine now payload c₁ c₂ c₃)
      (f.appendLine s.dir now payload c₁ c₂ c₃)).Recorded vs' := by
  obtain ⟨hio, hdays, -⟩ := hok
  have horder := (List.pairwise_append.mp hdays).2.1
  simp only [Label.calls, List.map_cons, List.map_nil, List.pairwise_cons,
    List.mem_cons] at horder
  obtain ⟨v', rest, hwrites', hjournal, hday⟩ := LogFile.appendLine_writes
    (hio c₁ (by simp [Label.calls])) (hio c₂ (by simp [Label.calls]))
    (hio c₃ (by simp [Label.calls])) (horder.1 _ (.inl rfl))
    (horder.2.1 _ (.inl rfl)) hwrites (hs.days hdays c₁ List.mem_cons_self) now
    payload
  refine ⟨v' :: rest, .enter ?_ hwrites' hday rfl ?_⟩
  · rw [LogFile.appendLine]
    simp only [LogFile.append_config]
    exact hconfig
  · rw [hjournal, hs.journal]
    rfl

theorem recorded_step {s s' : LogDir} {l : Label}
    (hs : ∃ vs, s.Recorded vs) (hok : s.CallsOk l) (h : s.step l = some s') :
    ∃ vs, s'.Recorded vs := by
  obtain ⟨vs, hs⟩ := hs
  have hopen : ∀ f, s.file = some f → f.config = s.config ∧
      ∃ v rest, vs = v :: rest ∧ Writes f s.dir v rest := by
    intro f hf
    have hrun := hs.running
    simpa only [Running, hf] using hrun
  cases step_stepped h with
  | construct c hnone => exact hs.construct hnone hok
  | append f data c hf =>
      obtain ⟨hconfig, v, rest, rfl, hwrites⟩ := hopen f hf
      exact hs.append hconfig hwrites hok
  | appendLine f now payload c₁ c₂ c₃ hf =>
      obtain ⟨hconfig, v, rest, rfl, hwrites⟩ := hopen f hf
      exact hs.appendLine hconfig hwrites hok
  | flush f res hf =>
      obtain ⟨hconfig, v, rest, rfl, hwrites⟩ := hopen f hf
      obtain rfl : res = .ok := hok.2.2.2
      have hrun : Running (s.enter (.flush .ok) (f.flush s.dir .ok))
          (v :: rest) :=
        ⟨(LogFile.flush_config f s.dir .ok).trans hconfig, v, rest, rfl,
          LogFile.flush_writes hwrites⟩
      exact ⟨v :: rest, hs.same hrun rfl rfl⟩
  | destroy f res hf =>
      obtain ⟨hconfig, v, rest, rfl, hwrites⟩ := hopen f hf
      obtain rfl : res = {} := hok.2.2.2
      have hclosed := (LogFile.close_keeps hwrites.keeps).2
      rw [hconfig] at hclosed
      exact ⟨v :: rest, hs.same hclosed rfl rfl⟩

theorem step_config {s s' : LogDir} {l : Label} (h : s.step l = some s') :
    s'.config = s.config := by
  cases step_stepped h <;> rfl

/-- The path of a file of that day and number. -/
def nameAt (config : LogConfig) (k : LocalDate × Nat) : List Char :=
  makeFilename config k.1.todayStr k.2

/-- In a run in which nothing goes wrong, the days do not go back and no day
has a million files, the files of the log have a day and a number, in the order
of which they hold what was appended, and all of it. A file that is not the
last of its day has reached `roll_size`. -/
theorem journal_kept {config : LogConfig} {ls : List Label} {s : LogDir}
    (hok : Machine.Meets step CallsOk (new config) ls)
    (hrun : Machine.run step (new config) ls = some s) :
    ∃ ks : List (LocalDate × Nat),
      s.dir.names = ks.map (nameAt config) ∧
      ks.Pairwise (fun k k' => k.1 < k'.1 ∨ k.1 = k'.1 ∧ k.2 < k'.2) ∧
      (ks.flatMap fun k => s.bytes (nameAt config k)) = s.appended ∧
      ∀ k ∈ ks, ∀ k' ∈ ks, k.1 = k'.1 → k.2 < k'.2 →
        config.rollSize ≤ (s.bytes (nameAt config k)).length := by
  obtain ⟨vs, hs⟩ := Machine.run_preserves_of_meets
    (P := fun s : LogDir => ∃ vs, s.Recorded vs) recorded_step
    ⟨[], recorded_new config⟩ hok hrun
  have hconfig : s.config = config :=
    Machine.run_preserves (P := fun s : LogDir => s.config = config)
      (fun hs h => (step_config h).trans hs) rfl hrun
  have hkeeps := hs.keeps
  rw [hconfig] at hkeeps
  refine ⟨vs.reverse.map fun v => (v.day, v.seq), ?_, ?_, ?_, ?_⟩
  · rw [List.map_map]
    exact hkeeps.names
  · rw [List.pairwise_map, List.pairwise_reverse]
    refine hkeeps.rolled.ordered.imp fun h => ?_
    exact h.imp_right fun ⟨hday, hseq, _⟩ => ⟨hday, hseq⟩
  · rw [← hs.journal, Volume.journal, List.flatMap_map]
    refine List.flatMap_congr fun v hv => ?_
    exact hkeeps.bytes v (List.mem_reverse.mp hv)
  · intro k hk k' hk' hday hseq
    obtain ⟨v, hv, rfl⟩ := List.mem_map.mp hk
    obtain ⟨v', hv', rfl⟩ := List.mem_map.mp hk'
    have hfull := hkeeps.rolled.full v' (List.mem_reverse.mp hv') v
      (List.mem_reverse.mp hv) hday hseq
    rw [← hkeeps.bytes v (List.mem_reverse.mp hv)] at hfull
    exact hfull

/-- Two days of a log whose files take three bytes, with a restart on each:
one with the file full, and one with room in it. -/
def twoDays : List Label :=
  let june : LocalDate := ⟨2026, 6, 30, by decide, by decide⟩
  let july : LocalDate := ⟨2026, 7, 1, by decide, by decide⟩
  [.construct ⟨june, {}⟩, .append [1, 2] ⟨june, {}⟩, .append [3, 4] ⟨june, {}⟩,
    .destroy, .construct ⟨june, {}⟩, .append [5] ⟨june, {}⟩,
    .append [6] ⟨july, { through := 1 }⟩, .flush, .append [7] ⟨july, {}⟩,
    .destroy, .construct ⟨july, {}⟩, .append [8] ⟨july, {}⟩,
    .append [9] ⟨july, {}⟩, .destroy]

def inThrees : LogConfig := ⟨['l'], 3, by decide⟩

theorem journal_kept_twoDays :
    ∃ s, Machine.run step (new inThrees) twoDays = some s ∧
      s.dir.names.length = 4 ∧ s.appended = [1, 2, 3, 4, 5, 6, 7, 8, 9] ∧
      ∃ ks : List (LocalDate × Nat), s.dir.names = ks.map (nameAt inThrees) ∧
        (ks.flatMap fun k => s.bytes (nameAt inThrees k)) =
          [1, 2, 3, 4, 5, 6, 7, 8, 9] := by
  have hany : (Machine.run step (new inThrees) twoDays).any (fun s =>
      s.dir.names.length == 4 && s.appended == [1, 2, 3, 4, 5, 6, 7, 8, 9]) =
        true := by
    decide +kernel
  obtain ⟨s, hrun, hs⟩ := (Option.any_eq_true _ _).mp hany
  simp only [Bool.and_eq_true, beq_iff_eq] at hs
  obtain ⟨ks, hnames, -, hall, -⟩ := journal_kept (by decide +kernel) hrun
  exact ⟨s, hrun, hs.1, hs.2, ks, hnames, hall.trans hs.2⟩

end LogDir

end GameFrame
