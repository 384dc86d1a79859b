import GameFrame.LogServer.LogCollector
import GameFrame.Proofs.LogPipeline
import GameFrame.Proofs.LogRecord

/-!
# The log of all connections

Many connections write to one log, and each of them comes in batches that end
anywhere. The log is one line after the other all the same: as long as nothing
goes wrong with the files, what is in them, in the order of days and numbers, is
the lines of the calls of `append_line`, and for each connection these calls are
the frames of its stream, in order, up to where it was closed (`collected`).

A line can be found again in the files if no payload has a newline in it, since
what is in front of it is always 26 bytes: a reader that knows no more than that
gets back the payloads (`log_readable`).
-/

namespace GameFrame

open LengthPrefixedCodec (parse parse_short)

def LogEntry.line (e : LogEntry) : List UInt8 := LogFile.line e.now e.payload

namespace LogDir

theorem run_appended {ls : List Label} : ∀ {s t : LogDir},
    Machine.run step s ls = some t →
    t.appended = s.appended ++ ls.flatMap Label.data := by
  induction ls with
  | nil =>
      intro s t hrun
      obtain rfl : s = t := by simpa using hrun
      exact (List.append_nil _).symm
  | cons l ls ih =>
      intro s t hrun
      obtain ⟨s', hs', hrest⟩ := Machine.run_cons_some.mp hrun
      have hfirst : s'.appended = s.appended ++ l.data := by
        cases step_stepped hs' <;> rfl
      rw [ih hrest, hfirst, List.flatMap_cons, List.append_assoc]

/-- The files by day and number, and what is in them. -/
theorem Recorded.files {s : LogDir} {vs : List (Volume LocalDate UInt8)}
    (h : s.Recorded vs) :
    ∃ ks : List (LocalDate × Nat), s.dir.names = ks.map (nameAt s.config) ∧
      ks.Pairwise (fun k k' => k.1 < k'.1 ∨ k.1 = k'.1 ∧ k.2 < k'.2) ∧
      (ks.flatMap fun k => s.bytes (nameAt s.config k)) = s.appended := by
  have hkeeps := h.keeps
  refine ⟨vs.reverse.map fun v => (v.day, v.seq), ?_, ?_, ?_⟩
  · rw [List.map_map]
    exact hkeeps.names
  · rw [List.pairwise_map, List.pairwise_reverse]
    exact hkeeps.rolled.ordered.imp fun h =>
      h.imp_right fun ⟨hday, hseq, _⟩ => ⟨hday, hseq⟩
  · rw [← h.journal, Volume.journal, List.flatMap_map]
    exact List.flatMap_congr fun v hv =>
      hkeeps.bytes v (List.mem_reverse.mp hv)

end LogDir

namespace LogServer

/-- A batch only adds to what was written. -/
theorem receive_own {s t : Peer} {reads : List ReadRes}
    (h : receive s reads = some t) : s.own <+: t.own := by
  have hcall : ∀ {s t : Peer}, onMessage s = some t → s.own <+: t.own := by
    intro s t h
    rw [onMessage] at h
    split at h
    · cases h
    · cases h
      exact List.prefix_refl _
    · cases h
      exact List.prefix_append _ _
  rw [receive, Session.receive] at h
  split at h
  · cases h
    exact List.prefix_refl _
  · exact Session.handleRead_own (R := (· <+: ·)) List.prefix_refl hcall h

end LogServer

namespace LogCollector

open LogServer (Peer newPeer maxLen bytes)

/-- Nothing goes wrong with the files, the days do not go back, and no day has a
million of them. -/
def Ok (c : LogCollector) (l : Label) : Prop :=
  ∀ r ∈ c.turn l, Machine.Meets LogDir.step LogDir.CallsOk c.store r.2

instance (c : LogCollector) (l : Label) : Decidable (c.Ok l) :=
  inferInstanceAs (Decidable (∀ r ∈ c.turn l, _))

/-- The payloads of a connection, in the order they were written in. -/
def payloadsOf (entries : List LogEntry) (k : Nat) : List (List UInt8) :=
  (entries.filter (·.conn = k)).map (·.payload)

/-! ## What is written for whom -/

structure Kept (c : LogCollector) : Prop where
  lines : c.store.appended = c.entries.flatMap LogEntry.line
  own : ∀ k, payloadsOf c.entries k = (c.peers k).own
  fresh : ∀ k, c.count ≤ k → (c.peers k).own = [] ∧ c.heard k = []
  heard : ∀ k, ∃ t, Machine.run LogServer.receive newPeer (c.heard k) = some t ∧
    t.own = (c.peers k).own ∧
    ((c.peers k).conn.state ≠ .kDisconnected → t = c.peers k)

theorem kept_new (config : LogConfig) : (new config).Kept where
  lines := rfl
  own := fun _ => rfl
  fresh := fun _ _ => ⟨rfl, rfl⟩
  heard := fun _ => ⟨newPeer, rfl, rfl, fun _ => rfl⟩

/-- The entries of one batch are those of its connection. -/
theorem payloadsOf_batch {msgs : List (List UInt8)} :
    ∀ {stamps : List Stamp}, stamps.length = msgs.length → ∀ k i : Nat,
    payloadsOf (List.zipWith (fun msg s => ⟨k, s.now, msg⟩) msgs stamps) i =
      if i = k then msgs else [] := by
  induction msgs with
  | nil =>
      intro stamps _ k i
      rw [List.zipWith_nil_left]
      split <;> rfl
  | cons msg msgs ih =>
      intro stamps hlen k i
      cases stamps with
      | nil => cases hlen
      | cons s stamps =>
          have hrest := ih (Nat.succ.inj hlen) k i
          rw [payloadsOf] at hrest ⊢
          rw [List.zipWith_cons_cons]
          by_cases hi : i = k
          · rw [List.filter_cons_of_pos (by simp [hi]), List.map_cons, hrest,
              if_pos hi, if_pos hi]
          · rw [List.filter_cons_of_neg (by simp [Ne.symm hi]), hrest,
              if_neg hi, if_neg hi]

/-- Its calls of `append_line` write its lines. -/
theorem data_writes (msgs : List (List UInt8)) (stamps : List Stamp) (k : Nat) :
    (writes msgs stamps).flatMap LogDir.Label.data =
      (List.zipWith (fun msg s => (⟨k, s.now, msg⟩ : LogEntry)) msgs
        stamps).flatMap LogEntry.line := by
  induction msgs generalizing stamps with
  | nil => rfl
  | cons msg msgs ih =>
      cases stamps with
      | nil => rfl
      | cons s stamps =>
          rw [writes, List.zipWith_cons_cons, List.zipWith_cons_cons,
            List.flatMap_cons, List.flatMap_cons, ← ih stamps]
          rfl

/-- What leaves the connections alone and writes nothing. -/
theorem Kept.store {c : LogCollector} (hc : c.Kept) {store : LogDir}
    (h : store.appended = c.store.appended) :
    { c with store := store }.Kept :=
  ⟨h.trans hc.lines, hc.own, hc.fresh, hc.heard⟩

theorem Kept.accept {c : LogCollector} (hc : c.Kept) :
    Kept { c with
      peers := fun i => if i = c.count then newPeer else c.peers i
      count := c.count + 1 } := by
  obtain ⟨hown, hheard⟩ := hc.fresh c.count (Nat.le_refl _)
  refine ⟨hc.lines, fun k => ?_, fun k hk => ?_, fun k => ?_⟩
  · show _ = (if k = c.count then newPeer else c.peers k).own
    split
    · next heq => rw [hc.own, heq, hown]; rfl
    · exact hc.own k
  · have hk : c.count + 1 ≤ k := hk
    show (if k = c.count then newPeer else c.peers k).own = [] ∧ _
    rw [if_neg (by omega)]
    exact hc.fresh k (by omega)
  · show ∃ t, _ ∧ t.own = (if k = c.count then newPeer else c.peers k).own ∧
      ((if k = c.count then newPeer else c.peers k).conn.state ≠ _ →
        t = if k = c.count then newPeer else c.peers k)
    split
    · next heq =>
        rw [heq, hheard]
        exact ⟨newPeer, rfl, rfl, fun _ => rfl⟩
    · exact hc.heard k

theorem Kept.exit {c : LogCollector} (hc : c.Kept) {store : LogDir}
    (h : store.appended = c.store.appended) :
    Kept { c with
      peers := fun i => Session.close (c.peers i), store := store } := by
  refine ⟨h.trans hc.lines, hc.own, hc.fresh, fun k => ?_⟩
  obtain ⟨t, ht, hown, -⟩ := hc.heard k
  exact ⟨t, ht, hown, fun hopen => absurd (Connection.close_state _) hopen⟩

theorem Kept.batch {c : LogCollector} (hc : c.Kept) {k : Nat}
    {reads : List ReadRes} {stamps : List Stamp} {s : Peer} {store : LogDir}
    (hk : k < c.count) (hopen : (c.peers k).conn.state ≠ .kDisconnected)
    (hs : LogServer.receive (c.peers k) reads = some s)
    (hlen : stamps.length = (s.own.drop (c.peers k).own.length).length)
    (hstore : Machine.run LogDir.step c.store
      (writes (s.own.drop (c.peers k).own.length) stamps) = some store) :
    Kept { c.heardFrom k reads stamps s with store := store } := by
  have hgrows := List.prefix_iff_eq_append.mp (LogServer.receive_own hs)
  refine ⟨?_, fun i => ?_, fun i hi => ?_, fun i => ?_⟩
  · show store.appended = (c.entries ++ _).flatMap LogEntry.line
    rw [LogDir.run_appended hstore, data_writes _ _ k, List.flatMap_append,
      hc.lines]
  · show payloadsOf (c.entries ++ _) i =
      (if i = k then s else c.peers i).own
    have hsplit : ∀ es : List LogEntry, payloadsOf (c.entries ++ es) i =
        payloadsOf c.entries i ++ payloadsOf es i := by
      intro es
      simp only [payloadsOf, List.filter_append, List.map_append]
    rw [hsplit, payloadsOf_batch hlen, hc.own]
    split
    · next heq => rw [heq, hgrows]
    · exact List.append_nil _
  · have hi : c.count ≤ i := hi
    have hne : i ≠ k := by omega
    show (if i = k then s else c.peers i).own = [] ∧
      (if i = k then c.heard i ++ [reads] else c.heard i) = []
    rw [if_neg hne, if_neg hne]
    exact hc.fresh i hi
  · show ∃ t, Machine.run _ _
        (if i = k then c.heard i ++ [reads] else c.heard i) = some t ∧
      t.own = (if i = k then s else c.peers i).own ∧
      ((if i = k then s else c.peers i).conn.state ≠ _ →
        t = if i = k then s else c.peers i)
    by_cases heq : i = k
    · -- It was not closed yet, so all it has gone through is its batches.
      obtain ⟨t, ht, -, hsame⟩ := hc.heard k
      rw [hsame hopen] at ht
      simp only [heq]
      exact ⟨s, Machine.run_snoc_some.mpr ⟨_, ht, hs⟩, rfl, fun _ => rfl⟩
    · simp only [if_neg heq]
      exact hc.heard i

theorem kept_step {c d : LogCollector} {l : Label} (hc : c.Kept)
    (h : c.step l = some d) : d.Kept := by
  have hquiet : ∀ {m : LogDir.Label} {store : LogDir}, m.data = [] →
      c.store.step m = some store → store.appended = c.store.appended := by
    intro m store hnil hstore
    have hrun : Machine.run LogDir.step c.store [m] = some store :=
      Machine.run_cons_some.mpr ⟨store, hstore, rfl⟩
    have happended := LogDir.run_appended hrun
    simpa [hnil] using happended
  cases step_stepped h with
  | construct call store hstore => exact hc.store (hquiet rfl hstore)
  | accept => exact hc.accept
  | batch k reads stamps s msgs store hk hopen hs hmsgs hlen hstore =>
      subst hmsgs
      exact hc.batch hk hopen hs hlen hstore
  | flush res store hstore => exact hc.store (hquiet rfl hstore)
  | exit res store hstore => exact hc.exit (hquiet rfl hstore)

/-- The frames of what was read from a connection: those that were written are
the first of them, and while it is up they are all of them. -/
theorem Kept.frames {c : LogCollector} (hc : c.Kept) (k : Nat) :
    payloadsOf c.entries k <+: (parse maxLen (bytes (c.heard k))).frames ∧
      ((c.peers k).conn.state ≠ .kDisconnected →
        payloadsOf c.entries k = (parse maxLen (bytes (c.heard k))).frames) := by
  obtain ⟨t, ht, hown, hsame⟩ := hc.heard k
  obtain ⟨fs, hfs, hpart, hwhole⟩ :=
    LogServer.run_frames LogServer.up_newPeer (parse_short (by decide)) ht
  have hpayloads : payloadsOf c.entries k = fs := by
    rw [hc.own, ← hown, hfs]
    rfl
  rw [hpayloads]
  refine ⟨hpart, fun hopen => hwhole ?_⟩
  rw [hsame hopen]
  exact hopen

/-! ## What is in the files -/

theorem recorded_step {c d : LogCollector} {l : Label}
    (hc : ∃ vs, c.store.Recorded vs) (hok : c.Ok l) (h : c.step l = some d) :
    ∃ vs, d.store.Recorded vs := by
  rw [step] at h
  split at h
  · cases h
  · next e ls hturn =>
      obtain ⟨store, hstore, rfl⟩ := Option.map_eq_some_iff.mp h
      exact Machine.run_preserves_of_meets
        (P := fun s : LogDir => ∃ vs, s.Recorded vs) LogDir.recorded_step hc
        (hok _ hturn) hstore

theorem step_config {c d : LogCollector} {l : Label} (h : c.step l = some d) :
    d.store.config = c.store.config := by
  rw [step] at h
  split at h
  · cases h
  · obtain ⟨store, hstore, rfl⟩ := Option.map_eq_some_iff.mp h
    exact Machine.run_preserves
      (P := fun s : LogDir => s.config = c.store.config)
      (fun hs h => (LogDir.step_config h).trans hs) rfl hstore

/-- The files of a run on which nothing went wrong. -/
theorem files_of_ok {config : LogConfig} {ls : List Label} {c : LogCollector}
    (hok : Machine.Meets step Ok (new config) ls)
    (hrun : Machine.run step (new config) ls = some c) :
    ∃ ks : List (LocalDate × Nat),
      c.store.dir.names = ks.map (LogDir.nameAt config) ∧
      ks.Pairwise (fun k k' => k.1 < k'.1 ∨ k.1 = k'.1 ∧ k.2 < k'.2) ∧
      (ks.flatMap fun k => c.store.bytes (LogDir.nameAt config k)) =
        c.entries.flatMap LogEntry.line := by
  obtain ⟨vs, hvs⟩ := Machine.run_preserves_of_meets
    (P := fun c : LogCollector => ∃ vs, c.store.Recorded vs) recorded_step
    ⟨[], LogDir.recorded_new config⟩ hok hrun
  have hconfig : c.store.config = config :=
    Machine.run_preserves (P := fun c : LogCollector => c.store.config = config)
      (fun hc h => (step_config h).trans hc) rfl hrun
  have hkept : c.Kept :=
    Machine.run_preserves (fun hc h => kept_step hc h) (kept_new config) hrun
  have hfiles := hvs.files
  rw [hconfig, hkept.lines] at hfiles
  exact hfiles

/-- In a run in which nothing goes wrong with the files, they hold, in the order
of their days and numbers, one line after the other; and the lines of each
connection are the frames of what was read from it, in order, and while it is up
all of them. -/
theorem collected {config : LogConfig} {ls : List Label} {c : LogCollector}
    (hok : Machine.Meets step Ok (new config) ls)
    (hrun : Machine.run step (new config) ls = some c) :
    (∃ ks : List (LocalDate × Nat),
      c.store.dir.names = ks.map (LogDir.nameAt config) ∧
      ks.Pairwise (fun k k' => k.1 < k'.1 ∨ k.1 = k'.1 ∧ k.2 < k'.2) ∧
      (ks.flatMap fun k => c.store.bytes (LogDir.nameAt config k)) =
        c.entries.flatMap LogEntry.line) ∧
    ∀ k, payloadsOf c.entries k <+:
        (parse maxLen (bytes (c.heard k))).frames ∧
      ((c.peers k).conn.state ≠ .kDisconnected →
        payloadsOf c.entries k =
          (parse maxLen (bytes (c.heard k))).frames) := by
  have hkept : c.Kept :=
    Machine.run_preserves (fun hc h => kept_step hc h) (kept_new config) hrun
  exact ⟨files_of_ok hok hrun, hkept.frames⟩

/-- A frame of the first connection that comes in two batches, with one of the
second in between, and a restart. -/
def twoSenders : List Label :=
  let may : LocalDate := ⟨2026, 5, 28, by decide, by decide⟩
  let stamp : Nat → Stamp := fun ms =>
    ⟨⟨may, 23, 59, 59, ms⟩, ⟨may, {}⟩, ⟨may, { through := 7 }⟩, ⟨may, {}⟩⟩
  [.construct ⟨may, {}⟩, .accept, .accept,
    .batch 0 [.data [0, 0, 0, 2, 104], .stop .eagain] [],
    .batch 1 [.data [0, 0, 0, 1, 120], .stop .eagain] [stamp 998],
    .batch 0 [.data [105, 0, 0, 0, 1, 121], .eintr, .stop .eof]
      [stamp 999, stamp 999],
    .flush, .exit, .construct ⟨may, {}⟩, .accept,
    .batch 2 [.data [0, 0, 0, 1, 122], .stop .eagain] [stamp 999]]

def small : LogConfig := ⟨['a', 'p', 'p'], 40, by decide⟩

theorem collected_twoSenders :
    ∃ c, Machine.run step (new small) twoSenders = some c ∧
      c.store.dir.names.length = 3 ∧
      payloadsOf c.entries 0 = [[104, 105], [121]] ∧
      payloadsOf c.entries 1 = [[120]] ∧
      ∃ ks : List (LocalDate × Nat),
        c.store.dir.names = ks.map (LogDir.nameAt small) ∧
        (ks.flatMap fun k => c.store.bytes (LogDir.nameAt small k)) =
          c.entries.flatMap LogEntry.line := by
  have hany : (Machine.run step (new small) twoSenders).any (fun c =>
      c.store.dir.names.length == 3 &&
      payloadsOf c.entries 0 == [[104, 105], [121]] &&
      payloadsOf c.entries 1 == [[120]]) = true := by decide +kernel
  obtain ⟨c, hrun, hc⟩ := (Option.any_eq_true _ _).mp hany
  simp only [Bool.and_eq_true, beq_iff_eq] at hc
  obtain ⟨⟨hnames, hzero⟩, hone⟩ := hc
  obtain ⟨⟨ks, hks, -, hfiles⟩, -⟩ := collected (by decide +kernel) hrun
  exact ⟨c, hrun, hnames, hzero, hone, ks, hks, hfiles⟩

/-! ## Reading it -/

/-- What is in front of the payload. -/
def prefixLen : Nat := 26

/-- One record a line: the payloads of a log. -/
def readLog (text : List UInt8) : List (List UInt8) :=
  (text.splitOn 10).dropLast.map (List.drop prefixLen)

end LogCollector

/-- What `localtime_r` gives before the year 10000. -/
structure LocalTime.InRange (t : LocalTime) : Prop where
  year : t.date.year < 10000
  hour : t.hour < 24
  min : t.min < 60
  sec : t.sec < 61
  ms : t.ms < 1000

theorem LocalTime.InRange.prefixLine_length {t : LocalTime} (h : t.InRange) :
    t.prefixLine.length = 26 := by
  have hpad : ∀ {w n : Nat}, 0 < w → n < 10 ^ w →
      (Decimal.pad w n).length = w := fun hw hn =>
    Decimal.length_pad ((Nat.length_toDigits_le_iff (by decide) hw).mpr hn)
  have hyear := hpad (w := 4) (by decide) h.year
  have hmonth := hpad (w := 2) (by decide)
    (Nat.lt_of_le_of_lt t.date.month_le (by decide))
  have hday := hpad (w := 2) (by decide)
    (Nat.lt_of_le_of_lt t.date.day_le (by decide))
  have hhour := hpad (w := 2) (by decide) (Nat.lt_trans h.hour (by decide))
  have hmin := hpad (w := 2) (by decide) (Nat.lt_trans h.min (by decide))
  have hsec := hpad (w := 2) (by decide) (Nat.lt_trans h.sec (by decide))
  have hms := hpad (w := 3) (by decide) h.ms
  simp only [LocalTime.prefixLine, bytesOf, List.length_map,
    List.length_append, hyear, hmonth, hday, hhour, hmin, hsec, hms,
    List.length_cons, List.length_nil]

def printable (c : Char) : Bool := decide (32 ≤ c.toNat ∧ c.toNat < 128)

theorem printable_pad (width n : Nat) :
    (Decimal.pad width n).all printable = true := by
  refine List.all_eq_true.mpr fun c hc => decide_eq_true ?_
  obtain ⟨hlow, hhigh⟩ := Char.isDigit_iff_toNat.mp (Decimal.isDigit_pad hc)
  have hzero : '0'.toNat = 48 := rfl
  have hnine : '9'.toNat = 57 := rfl
  omega

/-- Nothing in front of a payload is a newline. -/
theorem LocalTime.newline_not_mem (t : LocalTime) : 10 ∉ t.prefixLine := by
  intro hmem
  rw [LocalTime.prefixLine, bytesOf] at hmem
  obtain ⟨c, hc, hnewline⟩ := List.mem_map.mp hmem
  have hall : printable c = true := by
    refine List.all_eq_true.mp ?_ c hc
    simp only [List.all_append, printable_pad, Bool.and_true]
    decide
  have hrange : 32 ≤ c.toNat ∧ c.toNat < 128 := of_decide_eq_true hall
  have hten : c.toNat % 256 = 10 := by
    have := congrArg UInt8.toNat hnewline
    simpa using this
  omega

namespace LogCollector

/-- The line of such an entry is one line, and has its payload at its end. -/
structure Plain (e : LogEntry) : Prop where
  time : e.now.InRange
  payload : 10 ∉ e.payload

theorem bytes_newline : bytesOf ['\n'] = [10] := by decide

theorem readLog_lines {entries : List LogEntry}
    (h : ∀ e ∈ entries, Plain e) :
    readLog (entries.flatMap LogEntry.line) = entries.map (·.payload) := by
  have hsplit : (entries.flatMap LogEntry.line).splitOn 10 =
      entries.map (fun e => e.now.prefixLine ++ e.payload) ++ [[]] := by
    induction entries with
    | nil => simp
    | cons e entries ih =>
        have he := h e List.mem_cons_self
        have hline : e.line ++ entries.flatMap LogEntry.line =
            (e.now.prefixLine ++ e.payload) ++
              10 :: entries.flatMap LogEntry.line := by
          rw [LogEntry.line, LogFile.line, List.append_assoc, bytes_newline,
            List.singleton_append]
        have hnone : 10 ∉ e.now.prefixLine ++ e.payload := fun hmem =>
          (List.mem_append.mp hmem).elim e.now.newline_not_mem he.payload
        rw [List.flatMap_cons, hline,
          List.splitOn_append_cons_self_of_not_mem hnone,
          ih fun e' he' => h e' (List.mem_cons_of_mem e he'), List.map_cons,
          List.cons_append]
  have hdrop : ∀ e ∈ entries,
      List.drop prefixLen (e.now.prefixLine ++ e.payload) = e.payload := by
    intro e he
    rw [prefixLen, ← (h e he).time.prefixLine_length, List.drop_left]
  rw [readLog, hsplit, List.dropLast_concat, List.map_map]
  simp only [Function.comp_def, List.map_inj_left]
  exact hdrop

/-- Reading the files in the order of their days and numbers gives back the
payloads in the order they were written in, wherever one file ends and the next
begins, if none has a newline in it. -/
theorem log_readable {config : LogConfig} {ls : List Label} {c : LogCollector}
    (hok : Machine.Meets step Ok (new config) ls)
    (hrun : Machine.run step (new config) ls = some c)
    (hplain : ∀ e ∈ c.entries, Plain e) :
    ∃ ks : List (LocalDate × Nat),
      c.store.dir.names = ks.map (LogDir.nameAt config) ∧
      ks.Pairwise (fun k k' => k.1 < k'.1 ∨ k.1 = k'.1 ∧ k.2 < k'.2) ∧
      readLog (ks.flatMap fun k => c.store.bytes (LogDir.nameAt config k)) =
        c.entries.map (·.payload) := by
  obtain ⟨ks, hnames, horder, hfiles⟩ := files_of_ok hok hrun
  refine ⟨ks, hnames, horder, ?_⟩
  rw [hfiles, readLog_lines hplain]

theorem log_readable_twoSenders :
    ∃ c, Machine.run step (new small) twoSenders = some c ∧
      ∃ ks : List (LocalDate × Nat),
        c.store.dir.names = ks.map (LogDir.nameAt small) ∧
        readLog (ks.flatMap fun k => c.store.bytes (LogDir.nameAt small k)) =
          [[120], [104, 105], [121], [122]] := by
  have hany : (Machine.run step (new small) twoSenders).any (fun c =>
      c.entries.map (·.payload) == [[120], [104, 105], [121], [122]] &&
      c.entries.all fun e => decide (e.now.date.year < 10000 ∧ e.now.hour < 24 ∧
        e.now.min < 60 ∧ e.now.sec < 61 ∧ e.now.ms < 1000 ∧
        10 ∉ e.payload)) = true := by decide +kernel
  obtain ⟨c, hrun, hc⟩ := (Option.any_eq_true _ _).mp hany
  obtain ⟨hpayloads, hplain⟩ := Bool.and_eq_true_iff.mp hc
  obtain ⟨ks, hks, -, hread⟩ := log_readable (by decide +kernel) hrun
    fun e he => by
      obtain ⟨h₁, h₂, h₃, h₄, h₅, h₆⟩ :=
        of_decide_eq_true (List.all_eq_true.mp hplain e he)
      exact ⟨⟨h₁, h₂, h₃, h₄, h₅⟩, h₆⟩
  exact ⟨c, hrun, ks, hks, hread.trans (eq_of_beq hpayloads)⟩

end LogCollector

end GameFrame
