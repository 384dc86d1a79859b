import GameFrame.Proofs.LogVolumes

/-!
# Where an append goes

The directory may hold anything here, files of days to come as well, and the
day may go back. With a file open, what an `append` writes goes to one file,
which day and number and size of the open one decide (`target`), and every
other file stays as it is (`append_reaches`): that the file it goes to is new,
or has room, is not said, for `roll_if_needed` does not look.
-/

namespace GameFrame

open LogDir (nameAt)

/-- What is asked of the file system is done. The size of the candidate may not
be had: a number can be read off names that `make_filename` does not make. -/
structure FileIo.Served (io : FileIo) : Prop where
  scan : io.scan = true
  kept : io.Kept
  fopen : io.fopen = true
  openSize : io.openSize = true
  short : io.short = none

instance (io : FileIo) : Decidable io.Served :=
  decidable_of_iff (io.scan = true ∧ io.Kept ∧ io.fopen = true ∧
    io.openSize = true ∧ io.short = none)
    ⟨fun ⟨h₁, h₂, h₃, h₄, h₅⟩ => ⟨h₁, h₂, h₃, h₄, h₅⟩,
      fun ⟨h₁, h₂, h₃, h₄, h₅⟩ => ⟨h₁, h₂, h₃, h₄, h₅⟩⟩

namespace Directory

/-- What is not there has nothing in it. -/
def Sound (dir : Directory) : Prop :=
  ∀ name, name ∉ dir.names → dir.content name = []

variable {dir : Directory}

theorem Sound.write (h : dir.Sound) {path : List Char} (hpath : path ∈ dir.names)
    (data : List UInt8) : (dir.write path data).Sound := by
  intro name hname
  have hne : name ≠ path := by
    rintro rfl
    exact hname hpath
  simp only [Directory.write, if_neg hne]
  exact h name hname

theorem Sound.content_create (h : dir.Sound) (path name : List Char) :
    (dir.create path).content name = dir.content name := by
  rw [create]
  split
  · rfl
  · next hnew =>
      by_cases hname : name = path
      · subst hname
        simp [h name hnew]
      · simp [hname]

theorem mem_create (dir : Directory) (path name : List Char) :
    name ∈ (dir.create path).names ↔ name ∈ dir.names ∨ name = path := by
  rw [create]
  split
  · next hold =>
      refine ⟨.inl, ?_⟩
      rintro (hname | rfl)
      · exact hname
      · exact hold
  · simp

theorem Sound.create (h : dir.Sound) (path : List Char) :
    (dir.create path).Sound := by
  intro name hname
  rw [h.content_create]
  refine h name fun hold => hname ?_
  exact (mem_create dir path name).mpr (.inl hold)

end Directory

namespace LogFile

/-! ## What is open -/

/-- The file of that day and number is open, and `written_bytes_` is its size. -/
structure Open (f : LogFile) (dir : Directory) (k : LocalDate × Nat) : Prop where
  sound : dir.Sound
  fp : ∃ buffer, f.fp = some ⟨nameAt f.config k, buffer⟩
  there : nameAt f.config k ∈ dir.names
  date : f.currentDate = k.1.todayStr
  seq : f.currentSeq = k.2
  written : f.writtenBytes = (fileBytes dir f.fp (nameAt f.config k)).length

/-- A file of that day and number that was only just begun. -/
def begun (config : LogConfig) (k : LocalDate × Nat) : LogFile × Directory :=
  ({ config := config
     fp := some ⟨nameAt config k, []⟩
     currentDate := k.1.todayStr
     currentSeq := k.2 },
    { names := [nameAt config k] })

theorem begun_open (config : LogConfig) (k : LocalDate × Nat) :
    Open (begun config k).1 (begun config k).2 k where
  sound := fun _ _ => rfl
  fp := ⟨[], rfl⟩
  there := List.mem_cons_self
  date := rfl
  seq := rfl
  written := by simp [begun, fileBytes]

theorem nameAt_injective (config : LogConfig) :
    Function.Injective (nameAt config) := by
  intro k k' h
  obtain ⟨hday, hseq⟩ := makeFilename_inj h
  exact Prod.ext hday hseq

/-- The file of that day and number is open behind a call that wrote `data` to
it, and else has left the files as they were. -/
structure Reaches (config : LogConfig) (dir : Directory) (fp : Option Stream)
    (r : LogFile × Directory) (k : LocalDate × Nat) (data : List UInt8) :
    Prop where
  same : r.1.config = config
  opened : Open r.1 r.2 k
  names : dir.names ⊆ r.2.names
  bytes : ∀ name, fileBytes r.2 r.1.fp name =
    fileBytes dir fp name ++ if name = nameAt config k then data else []

theorem Reaches.written {config : LogConfig} {dir : Directory}
    {fp : Option Stream} {r : LogFile × Directory} {k : LocalDate × Nat}
    {data : List UInt8} (h : Reaches config dir fp r k data) :
    r.1.writtenBytes =
      (fileBytes dir fp (nameAt config k)).length + data.length := by
  rw [h.opened.written, h.same, h.bytes, if_pos rfl, List.length_append]

/-- The file that an `append` on that day goes to, with `k` open and `size`
bytes in it. -/
def target (rollSize size : Nat) (k : LocalDate × Nat) (today : LocalDate) :
    LocalDate × Nat :=
  if today ≠ k.1 then (today, 1)
  else if rollSize ≤ size then (k.1, k.2 + 1)
  else k

section Target

variable {rollSize size : Nat} {k : LocalDate × Nat} {today : LocalDate}

theorem target_other (h : today ≠ k.1) :
    target rollSize size k today = (today, 1) := if_pos h

theorem target_full (h : today = k.1) (hfull : rollSize ≤ size) :
    target rollSize size k today = (k.1, k.2 + 1) := by
  rw [target, if_neg (not_not_intro h), if_pos hfull]

theorem target_room (h : today = k.1) (hroom : size < rollSize) :
    target rollSize size k today = k := by
  rw [target, if_neg (not_not_intro h), if_neg (by omega)]

theorem target_day : (target rollSize size k today).1 = today := by
  rw [target]
  split
  · rfl
  · next h =>
      have h : today = k.1 := by simpa using h
      split
      · exact h.symm
      · exact h.symm

/-- Within a day the numbers grow. -/
theorem le_target (h : today = k.1) :
    k.2 ≤ (target rollSize size k today).2 := by
  by_cases hfull : rollSize ≤ size
  · rw [target_full h hfull]
    exact Nat.le_succ k.2
  · rw [target_room h (by omega)]

theorem target_pos (h : 0 < k.2) : 0 < (target rollSize size k today).2 := by
  by_cases hday : today = k.1
  · exact Nat.lt_of_lt_of_le h (le_target hday)
  · rw [target_other hday]
    exact Nat.one_pos

end Target

variable {f : LogFile} {dir : Directory} {io : FileIo} {k : LocalDate × Nat}
  {today : LocalDate}

/-! ## Opening -/

theorem fflush_spec (h : dir.Sound) {fp : Stream} (hfp : fp.path ∈ dir.names)
    (res : FlushRes) :
    (fp.fflush dir res).1.path = fp.path ∧ (fp.fflush dir res).2.Sound ∧
      (fp.fflush dir res).2.names = dir.names := by
  cases res with
  | ok => exact ⟨rfl, h.write hfp _, rfl⟩
  | failed n lost => exact ⟨rfl, h.write hfp _, rfl⟩

/-- Whatever comes of the flushes. -/
theorem close_spec (h : dir.Sound) (hfp : ∀ fp ∈ f.fp, fp.path ∈ dir.names)
    (res : CloseRes) :
    (f.close dir res).1 = { f with fp := none } ∧ (f.close dir res).2.Sound ∧
      (f.close dir res).2.names = dir.names := by
  cases hsome : f.fp with
  | none =>
      rw [close_none hsome]
      refine ⟨?_, h, rfl⟩
      rw [← hsome]
  | some fp =>
      obtain ⟨hpath, hsound, hnames⟩ := fflush_spec h (hfp fp hsome) res.fflush
      have hthere : (fp.fflush dir res.fflush).1.path ∈
          (fp.fflush dir res.fflush).2.names := by
        rw [hpath, hnames]
        exact hfp fp hsome
      obtain ⟨-, hsound', hnames'⟩ := fflush_spec hsound hthere res.fclose
      simp only [close, hsome, true_and]
      exact ⟨hsound', hnames'.trans hnames⟩

theorem close_bytes (f : LogFile) (dir : Directory) (name : List Char) :
    fileBytes (f.close dir {}).2 none name = fileBytes dir f.fp name := by
  cases hsome : f.fp with
  | none => rw [close_none hsome]
  | some fp =>
      rw [close_ok hsome]
      exact fileBytes_close dir fp name

/-- `open_file()` opens what it is told, and writes nothing. -/
theorem openFile_reaches (hio : io.Served) (h : dir.Sound)
    (hfp : ∀ fp ∈ f.fp, fp.path ∈ dir.names)
    (hdate : f.currentDate = k.1.todayStr) (hseq : f.currentSeq = k.2) :
    Reaches f.config dir f.fp (f.openFile dir io) k [] := by
  obtain ⟨hclosed, hsound, hnames⟩ := close_spec h hfp {}
  have hpath : makeFilename f.config f.currentDate f.currentSeq =
      nameAt f.config k := by
    rw [hdate, hseq, nameAt]
  have heq : f.openFile dir io =
      ({ f with
          fp := some ⟨nameAt f.config k, []⟩
          writtenBytes :=
            ((f.close dir {}).2.create (nameAt f.config k)).fileSize
              (nameAt f.config k) },
        (f.close dir {}).2.create (nameAt f.config k)) := by
    simp only [openFile, hio.kept.close, hclosed, hpath, hio.fopen,
      hio.openSize, if_true]
  have hmem := Directory.mem_create (f.close dir {}).2 (nameAt f.config k)
  rw [heq]
  refine ⟨rfl, ⟨hsound.create _, ⟨[], rfl⟩, (hmem _).mpr (.inr rfl), hdate,
    hseq, ?_⟩, fun name hname => ?_, fun name => ?_⟩
  · dsimp only
    rw [fileBytes_empty]
    rfl
  · rw [← hnames] at hname
    exact (hmem name).mpr (.inl hname)
  · rw [← close_bytes f dir name]
    simp [fileBytes, hsound.content_create]

theorem Open.path_mem (h : Open f dir k) : ∀ fp ∈ f.fp, fp.path ∈ dir.names := by
  obtain ⟨buffer, hsome⟩ := h.fp
  intro fp hfp
  cases hsome.symm.trans hfp
  exact h.there

/-- `roll_if_needed()` opens the file that the next write is to go to. -/
theorem rollIfNeeded_reaches (hio : io.Served) (h : Open f dir k) :
    Reaches f.config dir f.fp (f.rollIfNeeded dir today io)
      (target f.config.rollSize f.writtenBytes k today) [] := by
  obtain ⟨buffer, hsome⟩ := h.fp
  have hfp := h.path_mem
  have hother : (f.currentDate ≠ [] ∧ today.todayStr ≠ f.currentDate) ↔
      today ≠ k.1 := by
    rw [h.date]
    refine ⟨fun hne hday => hne.2 (by rw [hday]), fun hne => ?_⟩
    exact ⟨k.1.todayStr_ne_nil, fun heq => hne (LocalDate.todayStr_injective heq)⟩
  rw [rollIfNeeded]
  by_cases hday : today ≠ k.1
  · -- another day: its first file, whatever there is of it
    rw [if_pos (hother.mpr hday), target_other hday]
    exact openFile_reaches (f := { f with
      currentDate := today.todayStr, currentSeq := 1 }) (k := (today, 1)) hio
      h.sound hfp rfl rfl
  · rw [if_neg (mt hother.mp hday)]
    have hday : today = k.1 := not_not.mp hday
    by_cases hfull : f.config.rollSize ≤ f.writtenBytes
    · -- the next number, likewise
      rw [if_pos ⟨by simp [hsome], hfull⟩, target_full hday hfull]
      exact openFile_reaches (f := { f with currentSeq := f.currentSeq + 1 })
        (k := (k.1, k.2 + 1)) hio h.sound hfp h.date (congrArg (· + 1) h.seq)
    · rw [if_neg (fun hcond => hfull hcond.2), if_neg (by simp [hsome]),
        target_room hday (by omega)]
      exact ⟨rfl, h, fun _ hname => hname, fun name => by simp⟩

/-! ## Writing -/

/-- What an `append` has to write it writes to its target. -/
theorem append_reaches {c : Call} (hio : c.io.Served) (h : Open f dir k)
    (data : List UInt8) :
    Reaches f.config dir f.fp (f.append dir c data)
      (target f.config.rollSize f.writtenBytes k c.today) data := by
  have hroll : Reaches f.config dir f.fp (f.rollIfNeeded dir c.today c.io) _ [] :=
    rollIfNeeded_reaches hio h
  rw [append]
  revert hroll
  generalize target f.config.rollSize f.writtenBytes k c.today = k'
  generalize f.rollIfNeeded dir c.today c.io = r
  obtain ⟨f', dir'⟩ := r
  rintro ⟨hconfig, hopen, hnames, hbytes⟩
  have hconfig : f'.config = f.config := hconfig
  obtain ⟨buffer, hfp⟩ := hopen.fp
  have hfp : f'.fp = some ⟨nameAt f'.config k', buffer⟩ := hfp
  have hthere : nameAt f'.config k' ∈ dir'.names := hopen.there
  have htaken : data.take (c.io.short.getD data.length) = data := by
    rw [hio.short]
    exact List.take_length
  have hwrite := fileBytes_write dir' ⟨nameAt f'.config k', buffer⟩ data
    c.io.through
  simp only [hfp, htaken, hio.kept.lost, Nat.add_zero]
  refine ⟨hconfig, ⟨hopen.sound.write hthere _, ⟨_, rfl⟩, hthere, hopen.date,
    hopen.seq, ?_⟩, hnames, fun name => ?_⟩
  · have hsize : f'.writtenBytes = (fileBytes dir' f'.fp _).length :=
      hopen.written
    dsimp only
    rw [hwrite, if_pos rfl, List.length_append, hsize, hfp]
  · have hbytes : ∀ name, fileBytes dir' f'.fp name = _ := hbytes
    rw [hwrite, ← hfp, hbytes name, hconfig]
    simp [eq_comm]

end LogFile

/-- Two days, the second of which is the later. -/
def march : LocalDate := ⟨2026, 3, 31, by decide, by decide⟩

def april : LocalDate := ⟨2026, 4, 2, by decide, by decide⟩

end GameFrame
