import GameFrame.Proofs.LogRolling

/-!
# What is on disk stays there

A process that is killed loses what is in the buffer of its `FILE`, and so may
a flush or a write that fails. Nothing else is ever lost. Every file that
`LogFile` has to do with is opened for appending, so whatever becomes of the
calls, of the days, and of the process, a file only grows (`Grows`,
`run_content`). What is to be lost is therefore settled by the last flush that
did not fail: all that had been written to a file by then, and not lost, is at
the beginning of that file from there on (`flushed_kept`).

The directory may hold anything at the beginning, and nothing is asked of the
other calls. Those that fail may lose what is in the buffer, but none of what
is on disk.
-/

namespace GameFrame

/-- The file that is open is in the directory. -/
structure Stored (dir : Directory) (fp : Option Stream) : Prop where
  sound : dir.Sound
  there : ∀ x ∈ fp, x.path ∈ dir.names

/-- Every file has grown on disk, and if what is `kept` is, with what is in the
buffer as well. -/
structure Grows (kept : Prop) (dir : Directory) (fp : Option Stream)
    (dir' : Directory) (fp' : Option Stream) : Prop where
  stored : Stored dir' fp'
  content : ∀ name, dir.content name <+: dir'.content name
  bytes : kept → ∀ name, fileBytes dir fp name <+: fileBytes dir' fp' name

section Grows

variable {kept kept' : Prop} {d₁ d₂ d₃ : Directory} {f₁ f₂ f₃ : Option Stream}

theorem Grows.refl (h : Stored d₁ f₁) : Grows kept d₁ f₁ d₁ f₁ :=
  ⟨h, fun _ => List.prefix_refl _, fun _ _ => List.prefix_refl _⟩

theorem Grows.trans (h : Grows kept d₁ f₁ d₂ f₂)
    (h' : Grows kept d₂ f₂ d₃ f₃) : Grows kept d₁ f₁ d₃ f₃ where
  stored := h'.stored
  content := fun name => (h.content name).trans (h'.content name)
  bytes := fun hk name => (h.bytes hk name).trans (h'.bytes hk name)

theorem Grows.imp (h : Grows kept d₁ f₁ d₂ f₂) (hk : kept' → kept) :
    Grows kept' d₁ f₁ d₂ f₂ :=
  ⟨h.stored, h.content, fun hk' => h.bytes (hk hk')⟩

end Grows

theorem content_write_prefix (dir : Directory) (path : List Char)
    (data : List UInt8) (name : List Char) :
    dir.content name <+: (dir.write path data).content name := by
  rw [Directory.write]
  dsimp only
  split
  · exact List.prefix_append _ _
  · exact List.prefix_refl _

namespace LogFile

variable {f : LogFile} {dir : Directory}

theorem content_fflush_grows (fp : Stream) (dir : Directory) (res : FlushRes)
    (name : List Char) :
    dir.content name <+: (fp.fflush dir res).2.content name := by
  cases res with
  | ok => exact content_write_prefix dir fp.path _ name
  | failed n lost => exact content_write_prefix dir fp.path _ name

/-- If it does not fail, what was in the buffer is on disk. -/
theorem fflush_through (fp : Stream) (dir : Directory) (name : List Char) :
    (fp.fflush dir .ok).2.content name = fileBytes dir (some fp) name := by
  rw [← fileBytes_close]
  exact (List.append_nil _).symm

/-- Nothing is in a buffer any more. -/
theorem close_grows (h : Stored dir f.fp) (res : CloseRes) :
    Grows (res = {}) dir f.fp (f.close dir res).2 none := by
  obtain ⟨-, hsound, -⟩ := close_spec h.sound h.there res
  refine ⟨⟨hsound, nofun⟩, fun name => ?_, ?_⟩
  · cases hfp : f.fp with
    | none =>
        exact close_none hfp dir res ▸ List.prefix_refl _
    | some fp =>
        simp only [close, hfp]
        exact (content_fflush_grows fp dir res.fflush name).trans
          (content_fflush_grows _ _ res.fclose name)
  · rintro rfl name
    exact close_bytes f dir name ▸ List.prefix_refl _

theorem close_through (f : LogFile) (dir : Directory) (name : List Char) :
    (f.close dir {}).2.content name = fileBytes dir f.fp name := by
  rw [← close_bytes]
  exact (List.append_nil _).symm

theorem close_fp (f : LogFile) (dir : Directory) (res : CloseRes) :
    (f.close dir res).1.fp = none := by
  rw [close]
  split
  · next hnone => exact hnone
  · rfl

/-- Whether it can be opened or not. -/
theorem openFile_grows (h : Stored dir f.fp) (io : FileIo) :
    Grows io.Kept dir f.fp (f.openFile dir io).2 (f.openFile dir io).1.fp := by
  have hclose : Grows io.Kept dir f.fp (f.close dir io.close).2 none :=
    (close_grows h io.close).imp FileIo.Kept.close
  have hnone := close_fp f dir io.close
  rw [openFile]
  revert hclose hnone
  generalize f.close dir io.close = r
  obtain ⟨f', dir'⟩ := r
  intro hclose hnone
  replace hclose : Grows io.Kept dir f.fp dir' none := hclose
  dsimp only
  split
  · refine hclose.trans ⟨⟨hclose.stored.sound.create _, ?_⟩, fun name => ?_,
      fun _ name => ?_⟩
    · intro x hx
      obtain rfl := Option.some.inj hx
      exact (Directory.mem_create dir' _ _).mpr (.inr rfl)
    · simp only [hclose.stored.sound.content_create, List.prefix_refl]
    · rw [fileBytes_empty, hclose.stored.sound.content_create]
      show dir'.content name ++ [] <+: _
      simp only [List.append_nil, List.prefix_refl]
  · replace hnone : f'.fp = none := hnone
    rw [hnone]
    exact hclose

theorem rollIfNeeded_grows (h : Stored dir f.fp) (today : LocalDate)
    (io : FileIo) :
    Grows io.Kept dir f.fp (f.rollIfNeeded dir today io).2
      (f.rollIfNeeded dir today io).1.fp := by
  rw [rollIfNeeded]
  split
  · exact openFile_grows (f := { f with
      currentDate := today.todayStr, currentSeq := 1 }) h io
  · split
    · exact openFile_grows (f := { f with
        currentSeq := f.currentSeq + 1 }) h io
    · split
      · exact openFile_grows (f := { f with
          currentDate := today.todayStr
          currentSeq := f.firstSeq dir today.todayStr io }) h io
      · exact .refl h

/-- Whatever `fwrite` takes, and whatever of it goes through. -/
theorem append_grows (h : Stored dir f.fp) (c : Call) (data : List UInt8) :
    Grows c.io.Kept dir f.fp (f.append dir c data).2
      (f.append dir c data).1.fp := by
  have hroll := rollIfNeeded_grows h c.today c.io
  rw [append]
  revert hroll
  generalize f.rollIfNeeded dir c.today c.io = r
  obtain ⟨f', dir'⟩ := r
  intro hroll
  replace hroll : Grows c.io.Kept dir f.fp dir' f'.fp := hroll
  dsimp only
  split
  · next hnone =>
      rw [hnone] at hroll ⊢
      exact hroll
  · next fp hsome =>
      rw [hsome] at hroll
      have hthere : fp.path ∈ dir'.names := hroll.stored.there fp rfl
      refine hroll.trans ⟨⟨hroll.stored.sound.write hthere _, ?_⟩,
        content_write_prefix dir' fp.path _, fun hkept name => ?_⟩
      · intro x hx
        obtain rfl := Option.some.inj hx
        exact hthere
      · simp only [hkept.lost, Nat.add_zero]
        rw [fileBytes_write]
        exact List.prefix_append _ _

theorem flush_grows (h : Stored dir f.fp) (res : FlushRes) :
    Grows (res = .ok) dir f.fp (f.flush dir res).2 (f.flush dir res).1.fp := by
  cases hfp : f.fp with
  | none =>
      rw [hfp] at h
      simp only [flush, hfp]
      exact .refl h
  | some fp =>
      rw [hfp] at h
      simp only [flush, hfp]
      have hthere : fp.path ∈ dir.names := h.there fp rfl
      obtain ⟨hpath, hsound, hnames⟩ := fflush_spec h.sound hthere res
      refine ⟨⟨hsound, fun x hx => ?_⟩, content_fflush_grows fp dir res, ?_⟩
      · obtain rfl := Option.some.inj hx
        rw [hpath, hnames]
        exact hthere
      · rintro rfl name
        show _ <+: fileBytes _ (some ⟨fp.path, []⟩) name
        rw [fileBytes_empty]
        exact fflush_through fp dir name ▸ List.prefix_refl _

/-- If it does not fail, all that was written is on disk. -/
theorem flush_through (f : LogFile) (dir : Directory) (name : List Char) :
    (f.flush dir .ok).2.content name = fileBytes dir f.fp name := by
  cases hfp : f.fp with
  | none =>
      simp only [flush, hfp]
      exact (List.append_nil _).symm
  | some fp =>
      simp only [flush, hfp]
      exact fflush_through fp dir name

end LogFile

namespace LogDir

open LogFile (Call)

variable {config : LogConfig} {s s' t : LogDir}

/-- The `FILE` of the process. -/
def fp (s : LogDir) : Option Stream := s.file.bind LogFile.fp

/-- Nothing that is in the buffer is dropped. -/
def Op.Kept : Op → Prop
  | .construct c | .append _ c => c.io.Kept
  | .flush res => res = .ok
  | .destroy res => res = {}
  | .kill => False

/-- A flush, or the destructor, that does not fail. -/
def Op.Flushes : Op → Prop
  | .flush res => res = .ok
  | .destroy res => res = {}
  | .construct _ | .append _ _ | .kill => False

/-- What an operation does to the files. -/
structure Acted (s : LogDir) (o : Op) (s' : LogDir) : Prop where
  stored : Stored s'.dir s'.fp
  content : ∀ name, s.dir.content name <+: s'.dir.content name
  bytes : o.Kept → ∀ name, s.bytes name <+: s'.bytes name
  through : o.Flushes → ∀ name, s'.dir.content name = s.bytes name

theorem Acted.of_grows {r : LogFile × Directory} {fp : Option Stream} {o : Op}
    {l : Label} {kept : Prop} (hfp : s.fp = fp)
    (h : Grows kept s.dir fp r.2 r.1.fp) (hkept : o.Kept → kept)
    (hthrough : o.Flushes → ∀ name, r.2.content name = fileBytes s.dir fp name) :
    Acted s o (s.enter l r) := by
  subst hfp
  exact ⟨h.stored, h.content, fun hk => h.bytes (hkept hk), hthrough⟩

theorem act_acted {o : Op} (hs : Stored s.dir s.fp) (h : s.act o = some s') :
    Acted s o s' := by
  have hfile : ∀ {f : LogFile}, s.file = some f → s.fp = f.fp := by
    intro f hf
    rw [fp, hf]
    rfl
  cases o with
  | construct c =>
      cases step_stepped h with
      | construct _ hf =>
          have hnone : s.fp = none := by rw [fp, hf]; rfl
          rw [hnone] at hs
          have hroll := LogFile.rollIfNeeded_grows (f := { config := s.config })
            hs c.today c.io
          exact .of_grows hnone hroll id False.elim
  | append data c =>
      cases step_stepped h with
      | append f _ _ hf =>
          rw [hfile hf] at hs
          exact .of_grows (hfile hf) (LogFile.append_grows hs c data) id
            False.elim
  | flush res =>
      cases step_stepped h with
      | flush f _ hf =>
          rw [hfile hf] at hs
          refine .of_grows (hfile hf) (LogFile.flush_grows hs res) id ?_
          rintro rfl name
          exact LogFile.flush_through f s.dir name
  | destroy res =>
      cases step_stepped h with
      | destroy f _ hf =>
          have hbytes : ∀ name, s.bytes name = fileBytes s.dir f.fp name := by
            intro name
            rw [← hfile hf]
            rfl
          rw [hfile hf] at hs
          have hgrows := LogFile.close_grows hs res
          refine ⟨hgrows.stored, hgrows.content, fun hk name => ?_, ?_⟩
          · rw [hbytes]
            exact hgrows.bytes hk name
          · rintro rfl name
            rw [hbytes]
            exact LogFile.close_through f s.dir name
  | kill =>
      obtain ⟨f, hf, rfl⟩ := Option.map_eq_some_iff.mp h
      exact ⟨⟨hs.sound, nofun⟩, fun _ => List.prefix_refl _, False.elim,
        False.elim⟩

/-- Over any number of operations, kills and restarts a file only grows. -/
theorem run_content {os : List Op} (hs : Stored s.dir s.fp)
    (hrun : Machine.run act s os = some t) :
    Stored t.dir t.fp ∧ ∀ name, s.dir.content name <+: t.dir.content name := by
  refine Machine.run_preserves (P := fun u : LogDir =>
    Stored u.dir u.fp ∧ ∀ name, s.dir.content name <+: u.dir.content name)
    ?_ ⟨hs, fun _ => List.prefix_refl _⟩ hrun
  intro u o u' hu h
  have hacted := act_acted hu.1 h
  exact ⟨hacted.stored, fun name => (hu.2 name).trans (hacted.content name)⟩

theorem stored_new {dir : Directory} (h : dir.Sound) :
    Stored ({ config, dir } : LogDir).dir ({ config, dir } : LogDir).fp :=
  ⟨h, nofun⟩

/-- Whatever the process had written to a file, and not lost, when a `flush`
that did not fail returned, or when its `LogFile` was destroyed without a
failure, is at the beginning of that file on disk from then on: whatever it
writes, however its calls come out, whatever day it is, and however often it is
killed and started again. -/
theorem flushed_kept {dir : Directory} (hdir : dir.Sound) {os₀ os : List Op}
    {s s₁ t : LogDir} {o : Op} (ho : o.Flushes)
    (hbefore : Machine.run act { config, dir } os₀ = some s)
    (hflush : s.act o = some s₁) (hbehind : Machine.run act s₁ os = some t)
    (name : List Char) : s.bytes name <+: t.dir.content name := by
  obtain ⟨hs, -⟩ := run_content (stored_new hdir) hbefore
  have hacted := act_acted hs hflush
  obtain ⟨-, hcontent⟩ := run_content hacted.stored hbehind
  have hprefix := hcontent name
  rwa [hacted.through ho name] at hprefix

/-- What is written behind the flush is lost with the next, which fails. -/
theorem flushed_kept_killed :
    ∃ s s₁ t, Machine.run act { config := inThrees, dir := leftovers }
        [.construct ⟨march, {}⟩, .append [1, 2] ⟨march, {}⟩] = some s ∧
      s.act .flush = some s₁ ∧
      Machine.run act s₁ [.append [3] ⟨march, {}⟩,
        .flush (.failed 0 1), .kill, .construct ⟨april, {}⟩] = some t ∧
      t.dir.content (nameAt inThrees (march, 7)) = [1, 2] ∧
      s.bytes (nameAt inThrees (march, 7)) <+:
        t.dir.content (nameAt inThrees (march, 7)) := by
  have hany : (do
      let s ← Machine.run act { config := inThrees, dir := leftovers }
        [.construct ⟨march, {}⟩, .append [1, 2] ⟨march, {}⟩]
      let s₁ ← s.act .flush
      let t ← Machine.run act s₁ [.append [3] ⟨march, {}⟩,
        .flush (.failed 0 1), .kill, .construct ⟨april, {}⟩]
      some (t.dir.content (nameAt inThrees (march, 7)))) = some [1, 2] := by
    decide +kernel
  obtain ⟨s, hs, hany⟩ := Option.bind_eq_some_iff.mp hany
  obtain ⟨s₁, hs₁, hany⟩ := Option.bind_eq_some_iff.mp hany
  obtain ⟨t, ht, hany⟩ := Option.bind_eq_some_iff.mp hany
  exact ⟨s, s₁, t, hs, hs₁, ht, Option.some.inj hany,
    flushed_kept leftovers_sound (o := .flush) rfl hs hs₁ ht _⟩

end LogDir

end GameFrame
