import GameFrame.LogServer.LogProcess

/-!
# At most a second of the log is lost

There is one timer for the flushes. While its callback runs it is outstanding
no longer (`Chain`). Anything written before the callback set the next timer was
written before the flush. The next timer is for a second later, so when it is
still to come behind a pass of the timers, the flush was less than a second
before the clock of that pass, and what had been written by then is on disk, if
the flush did not fail and no call before it did that drops what is in the
buffer (`second_lost`).
-/

namespace GameFrame.LogProcess

open LogDir (Op)
open TimerCalls (Turn)

/-- `kFlushIntervalMs` in nanoseconds. -/
def flushNs : Int := kFlushIntervalMs * 1000000

theorem flush_soon : TimerCalls.Soon kFlushIntervalMs := by decide

variable {p q r : LogProcess}

/-- One flush is outstanding, for a second behind the last at least, and for a
second from now at most. Or its callback runs. -/
inductive Turned (p : LogProcess) : Prop where
  | waiting (id : Nat) (due : Int) :
      (∀ rest, p.calls.queue.pc ≠ .callback rest) →
      (∀ {id' : Nat} {due' : Int}, p.calls.Outstanding id' due' () ↔
        id' = id ∧ due' = due) →
      due ≤ p.calls.queue.now + flushNs →
      (∀ t ∈ p.flushes, t + flushNs ≤ due) → Turned p
  | flushed (rest : List Entry) : p.calls.queue.pc = .callback rest →
      (∀ {id : Nat} {due : Int}, ¬ p.calls.Outstanding id due ()) → Turned p

structure Chain (p : LogProcess) : Prop where
  ok : p.calls.Ok
  ahead : p.calls.Ahead
  stored : Stored p.store.dir p.store.fp
  turned : p.Turned
  past : ∀ t ∈ p.flushes, t ≤ p.calls.queue.now
  spaced : p.flushes.Pairwise fun later earlier => earlier + flushNs ≤ later

theorem chain_start {s : LogDir} {c : LogFile.Call} {t : Uptime}
    (hs : Stored s.dir s.fp) (h : start s c t = some p) : p.Chain := by
  obtain ⟨store, hstore, rfl⟩ := Option.map_eq_some_iff.mp h
  have hok : (TimerCalls.new t : TimerCalls Unit).Ok := TimerCalls.new_ok t
  have hiff := @TimerCalls.Ok.outstanding_runAfter _ _ hok _ flush_soon ()
  have hfields := TimerCalls.runAfter_fields (TimerCalls.new t)
    kFlushIntervalMs ()
  refine ⟨hok.runAfter rfl flush_soon _, (TimerCalls.new_ahead t).runAfter hok
    flush_soon (by decide) _, (LogDir.act_acted hs hstore).stored, ?_, nofun, .nil⟩
  refine .waiting 1 (t.val + flushNs) ?_ (fun {id' due'} => ?_) ?_ nofun
  · intro rest hpc
    replace hpc : ((TimerCalls.new t).runAfter kFlushIntervalMs ()).queue.pc =
      .callback rest := hpc
    rw [hfields.2.2] at hpc
    cases hpc
  · refine hiff.trans ⟨?_, fun ⟨hid, hdue⟩ => .inl ⟨hid, hdue, rfl⟩⟩
    rintro (⟨hid, hdue, -⟩ | hout)
    · exact ⟨hid, hdue⟩
    · exact absurd hout TimerCalls.not_outstanding_new
  · show t.val + flushNs ≤ ((TimerCalls.new t).runAfter kFlushIntervalMs
      ()).queue.now + flushNs
    rw [hfields.1]
    exact Int.le_refl _

/-- A turn is not the beginning or the end of a callback. -/
theorem turn_callback {c c' : TimerCalls Unit} {l : Turn} (hl : l ≠ .return)
    (h : c.turn l = some c') {rest : List Entry} :
    c'.queue.pc = .callback rest ↔ c.queue.pc = .callback rest := by
  obtain ⟨-, hstep, -⟩ := TimerCalls.turn_spec h
  generalize c'.queue = q at hstep ⊢
  cases l with
  | clock t =>
      cases hstep
      exact Iff.rfl
  | read =>
      cases hstep with
      | read hpc => exact ⟨nofun, fun h => nomatch hpc.symm.trans h⟩
  | collect =>
      cases hstep with
      | collect hpc => exact ⟨nofun, fun h => nomatch hpc.symm.trans h⟩
  | «return» => exact absurd rfl hl
  | finish =>
      cases hstep with
      | finish hpc =>
          rw [(TimerQueue.resetToBegin_rest _).1]
          exact ⟨nofun, fun h => nomatch hpc.symm.trans h⟩

theorem Chain.turn (hp : p.Chain) {l : Turn} {calls : TimerCalls Unit}
    (hl : l ≠ .return) (h : p.calls.turn l = some calls) :
    (p.setCalls calls).Chain := by
  have hnow := (hp.ok.turn_clock h).1
  refine ⟨hp.ok.turn h, hp.ahead.turn h, hp.stored, ?_,
    fun t ht => Int.le_trans (hp.past t ht) hnow, hp.spaced⟩
  cases hp.turned with
  | waiting id due hpc hout hdue hlast =>
      refine .waiting id due (fun rest hcall => ?_) (fun {id' due'} => ?_)
        (Int.le_trans hdue (Int.add_le_add_right hnow _)) hlast
      · exact hpc rest ((turn_callback hl h).mp hcall)
      · exact (TimerCalls.outstanding_turn h).trans hout
  | flushed rest hpc hout =>
      refine .flushed rest ((turn_callback hl h).mpr hpc) fun {id due} => ?_
      exact fun h' => hout ((TimerCalls.outstanding_turn h).mp h')

/-- The flush was due, and leaves none. -/
theorem Chain.flush (hp : p.Chain) {res : FlushRes}
    {calls : TimerCalls Unit} {store : LogDir}
    (hcall : p.calls.call = some ((), calls))
    (hstore : p.store.act (.flush res) = some store) :
    ({ calls, store, flushes := p.calls.queue.now :: p.flushes } :
      LogProcess).Chain := by
  obtain ⟨e, rest, hcalled⟩ := hp.ok.call hcall
  have hacted := LogDir.act_acted hp.stored hstore
  cases hp.turned with
  | waiting id due hpc hout hdue hlast =>
      obtain ⟨hid, hexp⟩ := hout.mp hcalled.outstanding
      have hle := hcalled.due hp.ok
      have hclock := hp.ok.clock
      refine ⟨hcalled.ok, hcalled.ahead hp.ahead, hacted.stored, ?_, ?_, ?_⟩
      · refine .flushed rest ?_ fun {id' due'} h => ?_
        · show calls.queue.pc = .callback rest
          rw [hcalled.queue]
        · obtain ⟨h, hne⟩ := (hcalled.outstanding_iff hp.ok).mp h
          exact hne ((hout.mp h).1.trans hid.symm)
      · intro t ht
        show t ≤ calls.queue.now
        rw [hcalled.now]
        rcases List.mem_cons.mp ht with rfl | ht
        · exact Int.le_refl _
        · exact hp.past t ht
      · refine List.pairwise_cons.mpr ⟨fun t ht => ?_, hp.spaced⟩
        have hbound := hlast t ht
        omega
  | flushed rest' hpc =>
      rw [hcalled.batch] at hpc
      cases hpc

/-- The next one is set. -/
theorem Chain.reschedule (hp : p.Chain) {rest : List Entry}
    {calls : TimerCalls Unit} (hpc : p.calls.queue.pc = .callback rest)
    (h : (p.calls.runAfter kFlushIntervalMs ()).turn .return = some calls) :
    (p.setCalls calls).Chain := by
  have hcallsOut : TimerQueue.callsOut p.calls.queue.pc = true := by
    rw [hpc]
    rfl
  have hok := hp.ok.runAfter hcallsOut flush_soon ()
  have hahead := hp.ahead.runAfter hp.ok flush_soon (by decide) ()
  have hfields := TimerCalls.runAfter_fields p.calls kFlushIntervalMs ()
  have hback : calls.queue.pc = .batch rest := by
    obtain ⟨-, hstep, -⟩ := TimerCalls.turn_spec h
    generalize calls.queue = q at hstep ⊢
    cases hstep with
    | returned rest' hpc' =>
        rw [hfields.2.2, hpc] at hpc'
        cases hpc'
        rfl
  have hnow := (hok.turn_clock h).1
  rw [hfields.1] at hnow
  cases hp.turned with
  | waiting id due hnot => exact absurd hpc (hnot rest)
  | flushed rest' _ hnone =>
      refine ⟨hok.turn h, hahead.turn h, hp.stored, ?_, fun t ht => ?_,
        hp.spaced⟩
      · refine .waiting p.calls.queue.nextId (p.calls.queue.now + flushNs) ?_
          (fun {id' due'} => ?_) ?_ fun t ht => ?_
        · intro rest'' hcall
          replace hcall : calls.queue.pc = .callback rest'' := hcall
          rw [hback] at hcall
          cases hcall
        · refine (TimerCalls.outstanding_turn h).trans
            ((hp.ok.outstanding_runAfter flush_soon).trans ⟨?_, ?_⟩)
          · rintro (⟨hid, hdue, -⟩ | hout)
            · exact ⟨hid, hdue⟩
            · exact absurd hout hnone
          · exact fun ⟨hid, hdue⟩ => .inl ⟨hid, hdue, rfl⟩
        · exact Int.add_le_add_right hnow _
        · exact Int.add_le_add_right (hp.past t ht) _
      · exact Int.le_trans (hp.past t ht) hnow

/-- A piece of a record is written. -/
theorem Chain.append (hp : p.Chain) {data : List UInt8} {c : LogFile.Call}
    {store : LogDir} (hidle : p.calls.queue.pc = .idle)
    (h : p.store.act (.append data c) = some store) :
    ({ p with store := store } : LogProcess).Chain := by
  refine ⟨hp.ok, hp.ahead, (LogDir.act_acted hp.stored h).stored, ?_, hp.past,
    hp.spaced⟩
  cases hp.turned with
  | waiting id due hpc hout hdue hlast =>
      exact .waiting id due hpc hout hdue hlast
  | flushed rest hpc => exact absurd (hidle.symm.trans hpc) nofun

theorem chain_step {l : Label} (hp : p.Chain) (h : p.step l = some q) :
    q.Chain := by
  cases step_stepped h with
  | turn l calls hturn hl => exact hp.turn hl hturn
  | flush res calls store hcall hstore => exact hp.flush hcall hstore
  | reschedule rest calls hpc hturn => exact hp.reschedule hpc hturn
  | append data c store hidle hstore => exact hp.append hidle hstore

/-! ## A state, and those behind it -/

/-- Nothing that is in the buffer is dropped. -/
def Label.Kept : Label → Prop
  | .flush res => res = .ok
  | .append _ c => c.io.Kept
  | .turn _ | .reschedule => True

instance : ∀ l : Label, Decidable l.Kept
  | .flush _ => inferInstanceAs (Decidable (_ = _))
  | .append _ c => inferInstanceAs (Decidable c.io.Kept)
  | .turn _ | .reschedule => .isTrue trivial

/-- What `p` had written, `q` has. It is on disk if the next flush of `q` is for
more than a second behind `p`, and while the callback runs, which `p` had still
before it. -/
structure Behind (p q : LogProcess) : Prop where
  clock : p.calls.queue.now ≤ q.calls.queue.now
  bytes : ∀ name, p.store.bytes name <+: q.store.bytes name
  disk : ∀ {id : Nat} {due : Int}, q.calls.Outstanding id due () →
    p.calls.queue.now + flushNs < due →
    ∀ name, p.store.bytes name <+: q.store.dir.content name
  called : ∀ rest, q.calls.queue.pc = .callback rest →
    ∀ name, p.store.bytes name <+: q.store.dir.content name

theorem behind_self (hp : p.Chain)
    (hnot : ∀ rest, p.calls.queue.pc ≠ .callback rest) : Behind p p where
  clock := Int.le_refl _
  bytes := fun _ => List.prefix_refl _
  disk := by
    intro id due hout hlate
    cases hp.turned with
    | waiting id' due' _ hiff hdue =>
        obtain ⟨-, rfl⟩ := hiff.mp hout
        omega
    | flushed rest hpc => exact absurd hpc (hnot rest)
  called := fun rest hpc => absurd hpc (hnot rest)

theorem Behind.step (h : Behind p q) (hq : q.Chain) {l : Label} (hl : l.Kept)
    (hstep : q.step l = some r) : Behind p r := by
  cases step_stepped hstep with
  | turn l calls hturn hne =>
      refine ⟨Int.le_trans h.clock (hq.ok.turn_clock hturn).1, h.bytes,
        fun hout => ?_, fun rest hpc => ?_⟩
      · exact h.disk ((TimerCalls.outstanding_turn hturn).mp hout)
      · exact h.called rest ((turn_callback hne hturn).mp hpc)
  | flush res calls store hcall hstore =>
      obtain rfl : res = .ok := hl
      obtain ⟨e, rest, hcalled⟩ := hq.ok.call hcall
      have hacted := LogDir.act_acted hq.stored hstore
      have hdisk : ∀ name, p.store.bytes name <+: store.dir.content name := by
        intro name
        rw [hacted.through rfl name]
        exact h.bytes name
      refine ⟨?_, fun name => (h.bytes name).trans (hacted.bytes rfl name),
        fun _ _ => hdisk, fun _ _ => hdisk⟩
      show _ ≤ calls.queue.now
      rw [hcalled.now]
      exact h.clock
  | reschedule rest calls hpc hturn =>
      have hok := (hq.reschedule hpc hturn).ok
      have hnow : q.calls.queue.now ≤ calls.queue.now := by
        have hcallsOut : TimerQueue.callsOut q.calls.queue.pc = true := by
          rw [hpc]
          rfl
        have hle := ((hq.ok.runAfter hcallsOut flush_soon _).turn_clock hturn).1
        rwa [(TimerCalls.runAfter_fields q.calls kFlushIntervalMs ()).1] at hle
      -- It has flushed, and written nothing since.
      exact ⟨Int.le_trans h.clock hnow, h.bytes, fun _ _ => h.called rest hpc,
        fun _ _ => h.called rest hpc⟩
  | append data c store hidle hstore =>
      have hacted := LogDir.act_acted hq.stored hstore
      refine ⟨h.clock, fun name => (h.bytes name).trans (hacted.bytes hl name),
        fun hout hlate name => ?_, fun rest hpc => ?_⟩
      · exact (h.disk hout hlate name).trans (hacted.content name)
      · exact absurd (hidle.symm.trans hpc) nofun

theorem behind_run {ls : List Label} {q : LogProcess} (h : Behind p q)
    (hq : q.Chain) (hkept : ∀ l ∈ ls, l.Kept)
    (hrun : Machine.run step q ls = some r) : Behind p r ∧ r.Chain :=
  Machine.run_preserves_of_mem (P := fun q => Behind p q ∧ q.Chain)
    (fun hl ⟨h, hq⟩ hstep => ⟨h.step hq (hkept _ hl) hstep,
      chain_step hq hstep⟩) ⟨h, hq⟩ hrun

/-! ## Whole runs -/

theorem chain_run {config : LogConfig} {dir : Directory} (hdir : dir.Sound)
    {c : LogFile.Call} {t : Uptime} {ls : List Label} {p₀ p : LogProcess}
    (hstart : start { config, dir } c t = some p₀)
    (hrun : Machine.run step p₀ ls = some p) : p.Chain :=
  Machine.run_preserves chain_step (chain_start (LogDir.stored_new hdir) hstart)
    hrun

/-- There is one timer for the flushes, or one of them is under way, and they
are a second apart. -/
theorem flushes_chained {config : LogConfig} {dir : Directory}
    (hdir : dir.Sound) {c : LogFile.Call} {t : Uptime} {ls : List Label}
    {p₀ p : LogProcess} (hstart : start { config, dir } c t = some p₀)
    (hrun : Machine.run step p₀ ls = some p) :
    (p.flushes.Pairwise fun later earlier => earlier + flushNs ≤ later) ∧
      ((∃ rest, p.calls.queue.pc = .callback rest) ∨
        ∃ id due, p.calls.Outstanding id due () ∧
          (∀ id' due', p.calls.Outstanding id' due' () →
            id' = id ∧ due' = due) ∧
          (p.calls.queue.pc = .idle →
            (∃ d, p.calls.queue.armed = some d ∧
              (d ≤ p.calls.queue.now + 1 ∨ d ≤ due + 1)) ∨
            p.calls.queue.unread = true)) := by
  have hp := chain_run hdir hstart hrun
  refine ⟨hp.spaced, ?_⟩
  cases hp.turned with
  | waiting id due _ hout =>
      have hself := hout.mpr ⟨rfl, rfl⟩
      exact .inr ⟨id, due, hself, fun _ _ h => hout.mp h,
        fun hidle => hp.ok.wakes hidle hself⟩
  | flushed rest hpc => exact .inl ⟨rest, hpc⟩

/-- A piece is written at the beginning, and flushed after a second. -/
def firstSecond : List Label :=
  [.turn (.clock ⟨1000000000, by decide⟩), .turn .read, .turn .collect, .flush,
    .reschedule, .turn .finish]

theorem flushes_chained_firstSecond :
    ∃ p₀ p, start { config := LogDir.inThrees, dir := LogDir.leftovers }
        ⟨march, {}⟩ 0 = some p₀ ∧
      Machine.run step p₀ (firstSecond ++ firstSecond.take 2) = some p ∧
      p.flushes = [1000000000] ∧
      (p.flushes.Pairwise fun later earlier => earlier + flushNs ≤ later) ∧
      ((∃ rest, p.calls.queue.pc = .callback rest) ∨
        ∃ id due, p.calls.Outstanding id due () ∧
          (∀ id' due', p.calls.Outstanding id' due' () →
            id' = id ∧ due' = due) ∧
          (p.calls.queue.pc = .idle →
            (∃ d, p.calls.queue.armed = some d ∧
              (d ≤ p.calls.queue.now + 1 ∨ d ≤ due + 1)) ∨
            p.calls.queue.unread = true)) := by
  have hany : (do
      let p₀ ← start { config := LogDir.inThrees, dir := LogDir.leftovers }
        ⟨march, {}⟩ 0
      let p ← Machine.run step p₀ (firstSecond ++ firstSecond.take 2)
      some p.flushes) = some [1000000000] := by
    decide +kernel
  obtain ⟨p₀, hstart, hany⟩ := Option.bind_eq_some_iff.mp hany
  obtain ⟨p, hrun, hany⟩ := Option.bind_eq_some_iff.mp hany
  exact ⟨p₀, p, hstart, hrun, Option.some.inj hany,
    flushes_chained LogDir.leftovers_sound hstart hrun⟩

/-- What had been written, and not lost, a second before the clock of a pass of
the timers is on disk when the pass is over, if no call in between has failed to
keep what was in the buffer, and stays there whatever comes: if the process is
killed at that moment or later, it loses none of it. The callback of the flush
writes nothing, and was not being run. -/
theorem second_lost {config : LogConfig} {dir : Directory} (hdir : dir.Sound)
    {c : LogFile.Call} {t : Uptime} {ls ms : List Label}
    {p₀ p q : LogProcess} (hstart : start { config, dir } c t = some p₀)
    (hbefore : Machine.run step p₀ ls = some p)
    (hnot : ∀ rest, p.calls.queue.pc ≠ .callback rest)
    (hkept : ∀ l ∈ ms, l.Kept) (hrun : Machine.run step p ms = some q)
    (hrest : q.calls.queue.pc.rest = [])
    (hsecond : p.calls.queue.now + flushNs ≤ q.calls.passed) {os : List Op}
    {s : LogDir} (hlater : Machine.run LogDir.act q.store os = some s)
    (name : List Char) : p.store.bytes name <+: s.dir.content name := by
  have hp := chain_run hdir hstart hbefore
  obtain ⟨hbehind, hq⟩ := behind_run (behind_self hp hnot) hp hkept hrun
  have hdisk : p.store.bytes name <+: q.store.dir.content name := by
    cases hq.turned with
    | waiting id due _ hout =>
        have hself := hout.mpr ⟨rfl, rfl⟩
        have hahead := hq.ahead.outstanding hrest hself
        exact hbehind.disk hself (by omega) name
    | flushed rest hpc => exact hbehind.called rest hpc name
  exact hdisk.trans ((LogDir.run_content hq.stored hlater).2 name)

/-- What is written behind the flush is lost, and nothing before it. -/
theorem second_lost_firstSecond :
    ∃ p₀ p q s, start { config := LogDir.inThrees, dir := LogDir.leftovers }
        ⟨march, {}⟩ 0 = some p₀ ∧
      Machine.run step p₀ [.append [1, 2] ⟨march, {}⟩] = some p ∧
      Machine.run step p firstSecond = some q ∧
      Machine.run LogDir.act q.store [.append [3] ⟨march, {}⟩, .kill] = some s ∧
      s.dir.content (LogDir.nameAt LogDir.inThrees (march, 7)) = [1, 2] ∧
      p.store.bytes (LogDir.nameAt LogDir.inThrees (march, 7)) <+:
        s.dir.content (LogDir.nameAt LogDir.inThrees (march, 7)) := by
  have hany : (do
      let p₀ ← start { config := LogDir.inThrees, dir := LogDir.leftovers }
        ⟨march, {}⟩ 0
      let p ← Machine.run step p₀ [.append [1, 2] ⟨march, {}⟩]
      let q ← Machine.run step p firstSecond
      let s ← Machine.run LogDir.act q.store [.append [3] ⟨march, {}⟩, .kill]
      some (q.calls.queue.pc.rest, p.calls.queue.pc, p.calls.queue.now,
        q.calls.passed, s.dir.content (LogDir.nameAt LogDir.inThrees
          (march, 7)))) =
      some ([], .idle, 0, 1000000000, [1, 2]) := by
    decide +kernel
  obtain ⟨p₀, hstart, hany⟩ := Option.bind_eq_some_iff.mp hany
  obtain ⟨p, hbefore, hany⟩ := Option.bind_eq_some_iff.mp hany
  obtain ⟨q, hrun, hany⟩ := Option.bind_eq_some_iff.mp hany
  obtain ⟨s, hlater, hany⟩ := Option.bind_eq_some_iff.mp hany
  simp only [Option.some.injEq, Prod.mk.injEq] at hany
  obtain ⟨hrest, hidle, hnow, hpassed, hcontent⟩ := hany
  refine ⟨p₀, p, q, s, hstart, hbefore, hrun, hlater, hcontent, ?_⟩
  refine second_lost LogDir.leftovers_sound hstart hbefore ?_ (by decide) hrun
    hrest ?_ hlater _
  · intro rest hpc
    rw [hpc] at hidle
    cases hidle
  · rw [hnow, hpassed]
    decide

end GameFrame.LogProcess
