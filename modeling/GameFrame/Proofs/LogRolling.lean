import GameFrame.Proofs.LogTargets

/-!
# Which file of a day is written to

The numbers of a day are to grow, and a file that is full is to be left alone.
What is seen of a run here is each file that is written to, and how large it
was (`watch`). In the directory there may be anything at the beginning, and the
days may go back.

A `LogFile` that is new looks for the highest number there is, and for room
(`le_firstSeq`). One that has a file open looks at nothing: on another day it
takes the first file of that day, and when it is full it takes the next number,
whatever of these is there already. As long as what it takes in this way has
room and is not below what it wrote to before (`RollsOk`), the numbers grow, and
no full file is written to (`orderly_of_rollsOk`).
-/

namespace GameFrame

namespace LogFile

open LogDir (nameAt)

/-! ## The first number -/

/-- One name of the directory, in the loop of `scan_today_max_seq`. -/
def countName (namePrefix : List Char) (maxSeq : Nat) (name : List Char) : Nat :=
  match fileSeq namePrefix name with
  | none => maxSeq
  | some v => if v > maxSeq then v else maxSeq

theorem le_countName (namePrefix : List Char) (maxSeq : Nat) (name : List Char) :
    maxSeq ≤ countName namePrefix maxSeq name := by
  rw [countName]
  split
  · exact Nat.le_refl _
  · split
    · omega
    · omega

theorem fileSeq_le_countName {namePrefix name : List Char} {v : Nat}
    (h : fileSeq namePrefix name = some v) (maxSeq : Nat) :
    v ≤ countName namePrefix maxSeq name := by
  simp only [countName, h]
  split
  · omega
  · omega

theorem scanTodayMaxSeq_eq (config : LogConfig) (dir : Directory)
    (day : List Char) :
    scanTodayMaxSeq config dir day =
      dir.iterator.foldl (countName (filePrefix config day)) 0 := rfl

theorem le_foldl_countName (namePrefix : List Char) (names : List (List Char))
    (maxSeq : Nat) : maxSeq ≤ names.foldl (countName namePrefix) maxSeq := by
  induction names generalizing maxSeq with
  | nil => exact Nat.le_refl _
  | cons name names ih =>
      rw [List.foldl_cons]
      exact Nat.le_trans (le_countName namePrefix maxSeq name) (ih _)

/-- What is read off a name counts. -/
theorem fileSeq_le_foldl {namePrefix name : List Char} {v : Nat}
    (h : fileSeq namePrefix name = some v) {names : List (List Char)}
    (hname : name ∈ names) (maxSeq : Nat) :
    v ≤ names.foldl (countName namePrefix) maxSeq := by
  induction names generalizing maxSeq with
  | nil => cases hname
  | cons other names ih =>
      rw [List.foldl_cons]
      rcases List.mem_cons.mp hname with rfl | hrest
      · have hle := fileSeq_le_countName h maxSeq
        exact Nat.le_trans hle (le_foldl_countName namePrefix names _)
      · exact ih hrest _

/-- A number up to a million is found if there is a file of it. -/
theorem le_scanTodayMaxSeq {config : LogConfig} {dir : Directory}
    {k : LocalDate × Nat} (hthere : nameAt config k ∈ dir.names)
    (hpos : 0 < k.2) (hfew : k.2 ≤ 1000000) :
    k.2 ≤ scanTodayMaxSeq config dir k.1.todayStr := by
  have hmem : nameAt config k ∈ dir.iterator := by
    refine List.mem_filter.mpr ⟨hthere, ?_⟩
    have hplain := makeFilename_plain config k.1 k.2
    simpa [nameAt] using hplain
  rw [scanTodayMaxSeq_eq]
  exact fileSeq_le_foldl (fileSeq_same config k.1 hpos hfew) hmem 0

variable {f : LogFile} {dir : Directory} {io : FileIo}

theorem firstSeq_pos (day : List Char) : 0 < f.firstSeq dir day io := by
  rw [firstSeq]
  dsimp only
  generalize (if io.scan then scanTodayMaxSeq f.config dir day else 0) = maxSeq
  split
  · exact Nat.one_pos
  · split
    · omega
    · omega

/-- So no number of the day that was written to is above the first. -/
theorem le_firstSeq (hio : io.Served) {day : List Char} {n : Nat}
    (hn : n ≤ scanTodayMaxSeq f.config dir day) :
    n ≤ f.firstSeq dir day io := by
  simp only [firstSeq, hio.scan, if_true]
  split
  · omega
  · split
    · exact hn
    · omega

/-- `roll_if_needed()` in the constructor. -/
theorem construct_reaches (config : LogConfig) (hio : io.Served) (h : dir.Sound)
    (today : LocalDate) :
    Reaches config dir none (rollIfNeeded { config } dir today io)
      (today, firstSeq { config } dir today.todayStr io) [] := by
  rw [rollIfNeeded_new]
  refine openFile_reaches (f :=
    { config := config
      currentDate := today.todayStr
      currentSeq := firstSeq { config } dir today.todayStr io }) hio h ?_ rfl rfl
  intro fp hfp
  cases hfp

theorem flush_open {k : LocalDate × Nat} (h : Open f dir k) :
    Open (f.flush dir .ok).1 (f.flush dir .ok).2 k ∧
      (f.flush dir .ok).2.names = dir.names := by
  obtain ⟨buffer, hfp⟩ := h.fp
  have hwritten := h.written
  rw [hfp, ← fileBytes_close] at hwritten
  simp only [flush, Stream.fflush, hfp]
  refine ⟨⟨h.sound.write h.there buffer, ⟨[], rfl⟩, h.there, h.date, h.seq, ?_⟩,
    rfl⟩
  dsimp only
  rw [hwritten, fileBytes_empty]
  simp [fileBytes]

end LogFile

namespace LogDir

open LogFile (Call Open Reaches target)

/-! ## Runs that are watched -/

/-- What a process can do with its `LogFile`, and that it is killed, which loses
what is in the buffer. -/
inductive Op where
  | construct (c : Call)
  | append (data : List UInt8) (c : Call)
  | flush (res : FlushRes := .ok)
  | destroy (res : CloseRes := {})
  | kill
  deriving Repr

def Op.calls : Op → List Call
  | .construct c | .append _ c => [c]
  | .flush _ | .destroy _ | .kill => []

def act (s : LogDir) : Op → Option LogDir
  | .construct c => s.step (.construct c)
  | .append data c => s.step (.append data c)
  | .flush res => s.step (.flush res)
  | .destroy res => s.step (.destroy res)
  | .kill => s.file.map fun _ => { s with file := none }

def Label.ops : Label → List Op
  | .construct c => [.construct c]
  | .append data c => [.append data c]
  | .appendLine now payload c₁ c₂ c₃ =>
      [.append now.prefixLine c₁, .append payload c₂, .append (bytesOf ['\n']) c₃]
  | .flush res => [.flush res]
  | .destroy res => [.destroy res]

/-- What the process does is made of these. -/
theorem run_ops {s t : LogDir} {ls : List Label}
    (hrun : Machine.run step s ls = some t) :
    Machine.run act s (ls.flatMap Label.ops) = some t := by
  induction ls generalizing s with
  | nil => exact hrun
  | cons l ls ih =>
      obtain ⟨s', hs', hrest⟩ := Machine.run_cons_some.mp hrun
      rw [List.flatMap_cons]
      refine Machine.run_append_some.mpr ⟨s', ?_, ih hrest⟩
      cases l with
      | appendLine now payload c₁ c₂ c₃ =>
          cases step_stepped hs' with
          | appendLine f _ _ _ _ _ hf =>
              simp [Label.ops, Machine.run_cons, act, step, hf, enter,
                LogFile.appendLine, Label.calls, Label.data]
      | construct c => simpa [Label.ops, Machine.run_cons, act] using hs'
      | append data c => simpa [Label.ops, Machine.run_cons, act] using hs'
      | flush res => simpa [Label.ops, Machine.run_cons, act] using hs'
      | destroy res => simpa [Label.ops, Machine.run_cons, act] using hs'

/-- A file that was written to: its day and number, and how large it was. -/
structure Write where
  day : List Char
  seq : Nat
  size : Nat
  deriving DecidableEq, Repr

def written (s s' : LogDir) : Op → Option Write
  | .append _ _ => do
      let f ← s'.file
      let fp ← f.fp
      some ⟨f.currentDate, f.currentSeq, (s.bytes fp.path).length⟩
  | _ => none

/-- The state, and what was written to, the last first. -/
def watch (w : LogDir × List Write) (o : Op) : Option (LogDir × List Write) :=
  (w.1.act o).map fun s => (s, (written w.1 s o).toList ++ w.2)

/-- There is something to be seen of every run. -/
theorem run_watched {s t : LogDir} {os : List Op} {ws : List Write}
    (hrun : Machine.run act s os = some t) :
    ∃ ws', Machine.run watch (s, ws) os = some (t, ws') := by
  induction os generalizing s ws with
  | nil =>
      obtain rfl : s = t := by simpa using hrun
      exact ⟨ws, rfl⟩
  | cons o os ih =>
      obtain ⟨s', hs', hrest⟩ := Machine.run_cons_some.mp hrun
      obtain ⟨ws', hrest⟩ := @ih s' ((written s s' o).toList ++ ws) hrest
      refine ⟨ws', Machine.run_cons_some.mpr ⟨_, ?_, hrest⟩⟩
      rw [watch, hs']
      rfl

/-- No full file is written to, and within a day the numbers do not fall. -/
structure Orderly (rollSize : Nat) (ws : List Write) : Prop where
  room : ∀ x ∈ ws, x.size < rollSize
  grow : ws.Pairwise fun x y => x.day = y.day → y.seq ≤ x.seq

instance (rollSize : Nat) (ws : List Write) : Decidable (Orderly rollSize ws) :=
  decidable_of_iff ((∀ x ∈ ws, x.size < rollSize) ∧
    ws.Pairwise fun x y => x.day = y.day → y.seq ≤ x.seq)
    ⟨fun ⟨hroom, hgrow⟩ => ⟨hroom, hgrow⟩, fun ⟨hroom, hgrow⟩ => ⟨hroom, hgrow⟩⟩

/-! ## Where nothing is looked at -/

def sizeAt (s : LogDir) (k : LocalDate × Nat) : Nat :=
  (s.bytes (nameAt s.config k)).length

/-- On another day its first file is taken, and it has to have room, and none
of the day's others may have been written to. The file behind a full one has to
have room. -/
def AppendOk (s : LogDir) (ws : List Write) (today : LocalDate) (f : LogFile) :
    Prop :=
  if today.todayStr ≠ f.currentDate then
    s.sizeAt (today, 1) < s.config.rollSize ∧
      ∀ x ∈ ws, x.day = today.todayStr → x.seq ≤ 1
  else
    s.config.rollSize ≤ f.writtenBytes →
      s.sizeAt (today, f.currentSeq + 1) < s.config.rollSize

instance (s : LogDir) (ws : List Write) (today : LocalDate) (f : LogFile) :
    Decidable (s.AppendOk ws today f) :=
  inferInstanceAs (Decidable (if today.todayStr ≠ f.currentDate then
    s.sizeAt (today, 1) < s.config.rollSize ∧
      ∀ x ∈ ws, x.day = today.todayStr → x.seq ≤ 1
    else s.config.rollSize ≤ f.writtenBytes →
      s.sizeAt (today, f.currentSeq + 1) < s.config.rollSize))

/-- A `LogFile` that is new does not find the numbers above a million. What its
destructor may fail to write is lost as with a kill, and not asked for. -/
def RollsOk (w : LogDir × List Write) (o : Op) : Prop :=
  (∀ c ∈ o.calls, c.io.Served) ∧
  match o with
  | .append _ c => ∀ f ∈ w.1.file, w.1.AppendOk w.2 c.today f
  | .construct c => ∀ x ∈ w.2, x.day = c.today.todayStr → x.seq ≤ 1000000
  | .flush res => res = .ok
  | .destroy _ | .kill => True

instance (w : LogDir × List Write) : ∀ o, Decidable (RollsOk w o)
  | .append _ _ => inferInstanceAs (Decidable (_ ∧ ∀ f ∈ w.1.file, _))
  | .construct _ => inferInstanceAs (Decidable (_ ∧ ∀ x ∈ w.2, _))
  | .flush _ => inferInstanceAs (Decidable (_ ∧ _ = _))
  | .destroy _ | .kill => inferInstanceAs (Decidable (_ ∧ True))

/-! ## The numbers grow -/

/-- Behind a run on which nothing went wrong every file that was written to is
there, and the one that is open has the highest number of its day. -/
structure Watched (config : LogConfig) (s : LogDir) (ws : List Write) : Prop where
  same : s.config = config
  sound : s.dir.Sound
  orderly : Orderly config.rollSize ws
  known : ∀ x ∈ ws, ∃ k : LocalDate × Nat, x.day = k.1.todayStr ∧ x.seq = k.2 ∧
    0 < k.2 ∧ nameAt config k ∈ s.dir.names
  opened : ∀ f, s.file = some f → f.config = config ∧ ∃ k, Open f s.dir k ∧
    0 < k.2 ∧ ∀ x ∈ ws, x.day = k.1.todayStr → x.seq ≤ k.2

variable {config : LogConfig} {s : LogDir} {ws : List Write}

theorem watched_new {dir : Directory} (h : dir.Sound) :
    Watched config { config, dir } [] where
  same := rfl
  sound := h
  orderly := ⟨by simp, .nil⟩
  known := fun _ hx => nomatch hx
  opened := fun _ hf => nomatch hf

/-- The state behind a step that opened `k`, or left it open. -/
theorem Watched.enter (h : Watched config s ws) {l : Label}
    {r : LogFile × Directory} {k : LocalDate × Nat} {xs : List Write}
    (hconfig : r.1.config = config) (hopen : Open r.1 r.2 k)
    (hnames : s.dir.names ⊆ r.2.names) (hpos : 0 < k.2)
    (horderly : Orderly config.rollSize xs)
    (hxs : ∀ x ∈ xs, x ∈ ws ∨ x.day = k.1.todayStr ∧ x.seq = k.2)
    (htop : ∀ x ∈ xs, x.day = k.1.todayStr → x.seq ≤ k.2) :
    Watched config (s.enter l r) xs where
  same := h.same
  sound := hopen.sound
  orderly := horderly
  known := by
    intro x hx
    rcases hxs x hx with hold | ⟨hday, hseq⟩
    · obtain ⟨k', hday, hseq, hpos', hthere⟩ := h.known x hold
      exact ⟨k', hday, hseq, hpos', hnames hthere⟩
    · have hthere := hopen.there
      rw [hconfig] at hthere
      exact ⟨k, hday, hseq, hpos, hthere⟩
  opened := by
    intro f hf
    obtain rfl : r.1 = f := Option.some.inj hf
    exact ⟨hconfig, k, hopen, hpos, htop⟩

/-- The numbers of a day that were written to are found, if they are not above
a million. -/
theorem Watched.le_scan (h : Watched config s ws) {today : LocalDate}
    (hfew : ∀ x ∈ ws, x.day = today.todayStr → x.seq ≤ 1000000) :
    ∀ x ∈ ws, x.day = today.todayStr →
      x.seq ≤ LogFile.scanTodayMaxSeq config s.dir today.todayStr := by
  intro x hx hday
  obtain ⟨k, hk, hseq, hpos, hthere⟩ := h.known x hx
  have hle := hfew x hx hday
  rw [hseq] at hle ⊢
  rw [← hday, hk]
  exact LogFile.le_scanTodayMaxSeq hthere hpos hle

theorem Watched.construct (h : Watched config s ws) {c : Call}
    (hio : c.io.Served)
    (hfew : ∀ x ∈ ws, x.day = c.today.todayStr → x.seq ≤ 1000000) :
    Watched config (s.enter (.construct c)
      (LogFile.rollIfNeeded { config := s.config } s.dir c.today c.io)) ws := by
  rw [h.same]
  have hreach := LogFile.construct_reaches config hio h.sound c.today
  refine h.enter hreach.same hreach.opened hreach.names (LogFile.firstSeq_pos _)
    h.orderly (fun x hx => .inl hx) fun x hx hday => ?_
  exact LogFile.le_firstSeq hio (h.le_scan hfew x hx hday)

/-- The write that is seen of an `append`. -/
theorem written_append {f : LogFile} {c : Call} {data : List UInt8}
    {r : LogFile × Directory} {k : LocalDate × Nat}
    (hconfig : f.config = s.config)
    (hreach : Reaches f.config s.dir f.fp r k data) :
    written s (s.enter (.append data c) r) (.append data c) =
      some ⟨k.1.todayStr, k.2, s.sizeAt k⟩ := by
  obtain ⟨buffer, hfp⟩ := hreach.opened.fp
  have hdate := hreach.opened.date
  have hseq := hreach.opened.seq
  simp only [written, LogDir.enter, Option.bind_eq_bind, Option.bind_some, hfp,
    hdate, hseq, hreach.same, hconfig, sizeAt]

theorem orderly_cons {rollSize : Nat} {x : Write} :
    Orderly rollSize (x :: ws) ↔ Orderly rollSize ws ∧ x.size < rollSize ∧
      ∀ y ∈ ws, x.day = y.day → y.seq ≤ x.seq := by
  constructor
  · rintro ⟨hroom, hgrow⟩
    obtain ⟨hx, hgrow⟩ := List.pairwise_cons.mp hgrow
    exact ⟨⟨fun y hy => hroom y (List.mem_cons_of_mem x hy), hgrow⟩,
      hroom x List.mem_cons_self, hx⟩
  · rintro ⟨⟨hroom, hgrow⟩, hx, htop⟩
    exact ⟨List.forall_mem_cons.mpr ⟨hx, hroom⟩, List.pairwise_cons.mpr ⟨htop, hgrow⟩⟩

theorem sizeAt_open {f : LogFile} {k : LocalDate × Nat} (hf : s.file = some f)
    (hconfig : f.config = s.config) (hopen : Open f s.dir k) :
    s.sizeAt k = f.writtenBytes := by
  rw [hopen.written, sizeAt, bytes, hf, hconfig]
  rfl

/-- It is in order just in case `AppendOk` held. -/
theorem orderly_append (h : Watched config s ws) {f : LogFile}
    {k : LocalDate × Nat} {today : LocalDate} (hf : s.file = some f)
    (hconfig : f.config = config) (hopen : Open f s.dir k)
    (htop : ∀ x ∈ ws, x.day = k.1.todayStr → x.seq ≤ k.2)
    {k' : LocalDate × Nat}
    (hk' : k' = target config.rollSize f.writtenBytes k today) :
    Orderly config.rollSize (⟨k'.1.todayStr, k'.2, s.sizeAt k'⟩ :: ws) ↔
      s.AppendOk ws today f := by
  have hother : today.todayStr ≠ f.currentDate ↔ today ≠ k.1 := by
    rw [hopen.date]
    exact not_congr ⟨LocalDate.todayStr_injective, fun heq => by rw [heq]⟩
  have hsize := sizeAt_open hf (hconfig.trans h.same.symm) hopen
  have htop' : ∀ x ∈ ws, k.1.todayStr = x.day → x.seq ≤ k.2 :=
    fun x hx hday => htop x hx hday.symm
  rw [orderly_cons, and_iff_right h.orderly, AppendOk, h.same]
  by_cases hday : today ≠ k.1
  · rw [LogFile.target_other hday] at hk'
    rw [if_pos (hother.mpr hday), hk']
    refine and_congr_right fun _ => ?_
    exact ⟨fun hall x hx h => hall x hx h.symm, fun hall x hx h => hall x hx h.symm⟩
  · rw [if_neg (mt hother.mp hday), hopen.seq]
    have hday : today = k.1 := not_not.mp hday
    by_cases hfull : config.rollSize ≤ f.writtenBytes
    · rw [LogFile.target_full hday hfull] at hk'
      rw [hk', hday]
      refine ⟨fun hnext _ => hnext.1, fun hnext => ⟨hnext hfull, ?_⟩⟩
      exact fun x hx hday => Nat.le_succ_of_le (htop' x hx hday)
    · rw [LogFile.target_room hday (by omega)] at hk'
      rw [hk', hsize]
      exact ⟨fun _ h => absurd h hfull, fun _ => ⟨Nat.lt_of_not_le hfull, htop'⟩⟩

theorem Watched.append (h : Watched config s ws) {f : LogFile} {c : Call}
    (data : List UInt8) (hf : s.file = some f) (hio : c.io.Served)
    (hok : s.AppendOk ws c.today f) {s' : LogDir}
    (hs' : s' = s.enter (.append data c) (f.append s.dir c data)) :
    Watched config s' ((written s s' (.append data c)).toList ++ ws) := by
  obtain ⟨hconfig, k, hopen, hpos, htop⟩ := h.opened f hf
  have hreach := LogFile.append_reaches hio hopen data
  rw [hs', written_append (hconfig.trans h.same.symm) hreach, hconfig]
  rw [hconfig] at hreach
  have horderly := (orderly_append h hf hconfig hopen htop rfl).mpr hok
  refine h.enter hreach.same hreach.opened hreach.names
    (LogFile.target_pos hpos) horderly (fun x hx => ?_) fun x hx hday => ?_
  · rcases List.mem_cons.mp hx with rfl | hold
    · exact .inr ⟨rfl, rfl⟩
    · exact .inl hold
  · rcases List.mem_cons.mp hx with rfl | hold
    · exact Nat.le_refl _
    · exact (orderly_cons.mp horderly).2.2 x hold hday.symm

theorem Watched.closed (h : Watched config s ws) {t : LogDir}
    (hsame : t.config = s.config) (hsound : t.dir.Sound)
    (hnames : t.dir.names = s.dir.names) (hfile : t.file = none) :
    Watched config t ws where
  same := hsame.trans h.same
  sound := hsound
  orderly := h.orderly
  known := by
    rw [hnames]
    exact h.known
  opened := by
    intro f hf
    cases hfile.symm.trans hf

theorem Watched.destroy (h : Watched config s ws) {f : LogFile}
    (hf : s.file = some f) (res : CloseRes) :
    Watched config
      { s.enter (.destroy res) (f.close s.dir res) with file := none } ws := by
  obtain ⟨hconfig, k, hopen, -⟩ := h.opened f hf
  obtain ⟨-, hsound, hnames⟩ := LogFile.close_spec h.sound hopen.path_mem res
  exact h.closed rfl hsound hnames rfl

theorem Watched.flush (h : Watched config s ws) {f : LogFile}
    (hf : s.file = some f) :
    Watched config (s.enter (.flush .ok) (f.flush s.dir .ok)) ws := by
  obtain ⟨hconfig, k, hopen, hpos, htop⟩ := h.opened f hf
  obtain ⟨hopen', hnames⟩ := LogFile.flush_open hopen
  refine h.enter ((LogFile.flush_config f s.dir .ok).trans hconfig) hopen' ?_ hpos
    h.orderly (fun x hx => .inl hx) htop
  rw [hnames]
  exact fun _ hname => hname

theorem watched_step {w w' : LogDir × List Write} {o : Op}
    (h : Watched config w.1 w.2) (hok : RollsOk w o) (hw : watch w o = some w') :
    Watched config w'.1 w'.2 := by
  obtain ⟨s, ws⟩ := w
  obtain ⟨t, ht, rfl⟩ := Option.map_eq_some_iff.mp hw
  obtain ⟨hio, hok⟩ := hok
  cases o with
  | construct c =>
      cases step_stepped ht with
      | construct _ hnone =>
          exact h.construct (hio c List.mem_cons_self) hok
  | append data c =>
      cases step_stepped ht with
      | append f _ _ hf =>
          exact h.append data hf (hio c List.mem_cons_self) (hok f hf) rfl
  | flush res =>
      obtain rfl : res = .ok := hok
      cases step_stepped ht with
      | flush f _ hf => exact h.flush hf
  | destroy res =>
      cases step_stepped ht with
      | destroy f _ hf => exact h.destroy hf res
  | kill =>
      obtain ⟨f, hf, rfl⟩ := Option.map_eq_some_iff.mp ht
      exact h.closed rfl h.sound rfl rfl

/-- In a run from any directory in which what a roll takes unseen has room, and
is not below what was written to, no full file is written to, and the numbers of
a day do not fall. -/
theorem orderly_of_rollsOk {config : LogConfig} {dir : Directory}
    (hdir : dir.Sound) {os : List Op} {w : LogDir × List Write}
    (hok : Machine.Meets watch RollsOk ({ config, dir }, []) os)
    (hrun : Machine.run watch ({ config, dir }, []) os = some w) :
    Orderly config.rollSize w.2 := by
  have hall : Watched config w.1 w.2 := Machine.run_preserves_of_meets
    (P := fun w : LogDir × List Write => Watched config w.1 w.2) watched_step
    (watched_new hdir) hok hrun
  exact hall.orderly

/-- A full file and one with room of the one day, and one of the next. -/
def leftovers : Directory :=
  let name := nameAt inThrees
  ((((({} : Directory).create (name (march, 1))).write (name (march, 1))
    [1, 2, 3]).create (name (march, 7))).create (name (april, 2)))

theorem leftovers_sound : leftovers.Sound := by
  have hempty : Directory.Sound {} := fun _ _ => rfl
  have hfull := (hempty.create (nameAt inThrees (march, 1))).write
    ((Directory.mem_create _ _ _).mpr (.inr rfl)) [1, 2, 3]
  exact (hfull.create _).create _

theorem orderly_of_rollsOk_leftovers :
    ∃ w, Machine.run watch ({ config := inThrees, dir := leftovers }, [])
        [.construct ⟨march, {}⟩, .append [1, 2, 3] ⟨march, { through := 3 }⟩,
          .append [4] ⟨march, {}⟩, .kill, .construct ⟨march, {}⟩,
          .append [5] ⟨march, {}⟩, .append [6, 7, 8] ⟨april, {}⟩,
          .append [9] ⟨april, {}⟩, .destroy] = some w ∧
      w.2.map Write.seq = [2, 1, 8, 8, 7] ∧ Orderly 3 w.2 := by
  have hany : (Machine.run watch ({ config := inThrees, dir := leftovers }, [])
      [.construct ⟨march, {}⟩, .append [1, 2, 3] ⟨march, { through := 3 }⟩,
        .append [4] ⟨march, {}⟩, .kill, .construct ⟨march, {}⟩,
        .append [5] ⟨march, {}⟩, .append [6, 7, 8] ⟨april, {}⟩,
        .append [9] ⟨april, {}⟩, .destroy]).any
          (fun w => w.2.map Write.seq == [2, 1, 8, 8, 7]) = true := by
    decide +kernel
  obtain ⟨w, hrun, hw⟩ := (Option.any_eq_true _ _).mp hany
  exact ⟨w, hrun, by simpa using hw,
    orderly_of_rollsOk leftovers_sound (by decide +kernel) hrun⟩

/-- A day that comes back: its first file is full, and its second was written
to. -/
theorem number_falls :
    ¬ ∀ (config : LogConfig) (dir : Directory) (os : List Op)
      (w : LogDir × List Write), 0 < config.rollSize → dir.Sound →
      Machine.Meets watch (fun _ o => ∀ c ∈ o.calls, c.io.Served)
        ({ config, dir }, []) os →
      Machine.run watch ({ config, dir }, []) os = some w →
      Orderly config.rollSize w.2 := by
  intro hall
  have hany : (Machine.run watch ({ config := inThrees }, [])
      [.construct ⟨march, {}⟩, .append [1, 2, 3] ⟨march, {}⟩,
        .append [4] ⟨march, {}⟩, .append [5] ⟨april, {}⟩,
        .append [6] ⟨march, {}⟩]).any
          (fun w => !decide (Orderly inThrees.rollSize w.2)) = true := by
    decide +kernel
  obtain ⟨w, hrun, hw⟩ := (Option.any_eq_true _ _).mp hany
  have horderly := hall inThrees {} _ w (by decide) (fun _ _ => rfl)
    (by decide +kernel) hrun
  exact absurd horderly (by simpa using hw)

end LogDir

end GameFrame
