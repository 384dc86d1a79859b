import GameFrame.Echo.EchoLog
import GameFrame.Proofs.LogCollected
import GameFrame.Proofs.LogStatements

/-!
# Whose lines they are

Echo servers that log, over connections that come and go, into one `log_server`.
What clients send ends up in the log. But a statement of the echo server is one
line, whatever it has in it (`OfEcho.oneLine`), and so is what its sender adds.

So the files, read line by line, hold nothing that was not logged: each line is
the text of a statement that one of the servers has stored, or its sender's word
that messages were lost; and of what one of them has logged over one connection
the lines tell in order, and each once (`log_genuine`). No client can add a line
to the log, or break one.
-/

namespace GameFrame

/-! ## One line a statement -/

theorem decimal_oneLine (n : Nat) : 10 ∉ decimal n :=
  number_clear (by decide) n

theorem number_oneLine (i : Int) : 10 ∉ literal (toString i) :=
  line_clear (by decide) i

theorem EchoClient.who_oneLine (c : EchoClient) : 10 ∉ c.who := by
  have hfd : 10 ∉ literal "fd=" := by decide
  have hpeer : 10 ∉ literal " peer=" := by decide
  have hdot : 10 ∉ literal "." := by decide
  have hcolon : 10 ∉ literal ":" := by decide
  simp only [who, peer, List.mem_append, not_or]
  simp only [hfd, hpeer, hdot, hcolon, number_oneLine, decimal_oneLine,
    not_false_eq_true, and_self]

theorem preview_oneLine (data : List UInt8) : 10 ∉ preview data := by
  have hmap : 10 ∉ data.map fun c => if c = 10 ∨ c = 13 then 32 else c := by
    intro hmem
    obtain ⟨c, -, hc⟩ := List.mem_map.mp hmem
    split at hc
    · cases hc
    · next hother => exact hother (.inl hc)
  have hdots : 10 ∉ literal "..." := by decide
  rw [preview]
  split
  · intro hmem
    rcases List.mem_append.mp hmem with hfirst | hlast
    · exact hmap (List.mem_of_mem_take hfirst)
    · exact hdots hlast
  · exact hmap

theorem cString_subset (s : List UInt8) : cString s ⊆ s :=
  (List.takeWhile_prefix _).subset

theorem EchoEvent.logs_oneLine {c : EchoClient} {e : EchoEvent}
    {level : LogLevel} {body : List UInt8} (h : (level, body) ∈ e.logs c) :
    10 ∉ body := by
  have hwho := c.who_oneLine
  cases e with
  | connected | disconnected =>
      obtain ⟨-, rfl⟩ := Prod.mk.inj (List.mem_singleton.mp h)
      simp only [List.mem_append, not_or]
      exact ⟨by decide, hwho⟩
  | idleKick =>
      obtain ⟨-, rfl⟩ := Prod.mk.inj (List.mem_singleton.mp h)
      simp only [List.mem_append, not_or]
      exact ⟨⟨⟨⟨by decide, hwho⟩, by decide⟩, number_oneLine _⟩, by decide⟩
  | message data =>
      have hdata : 10 ∉ cString (preview data) := fun hmem =>
        preview_oneLine data (cString_subset _ hmem)
      have hrecv : 10 ∉ literal "recv " ++ decimal data.length ++
          literal " bytes from " ++ c.who ++ literal " | \"" ++
          cString (preview data) ++ literal "\"" := by
        simp only [List.mem_append, not_or]
        exact ⟨⟨⟨⟨⟨⟨by decide, decimal_oneLine _⟩, by decide⟩, hwho⟩,
          by decide⟩, hdata⟩, by decide⟩
      have hboom : 10 ∉ literal "business error triggered by client " ++
          c.who ++ literal " (payload had 'BOOM')" := by
        simp only [List.mem_append, not_or]
        exact ⟨⟨by decide, hwho⟩, by decide⟩
      rw [logs] at h
      split at h
      · rcases List.mem_cons.mp h with heq | hmem
        · rw [(Prod.mk.inj heq).2]
          exact hrecv
        · rw [(Prod.mk.inj (List.mem_singleton.mp hmem)).2]
          exact hboom
      · rw [(Prod.mk.inj (List.mem_singleton.mp h)).2]
        exact hrecv

theorem levelStr_oneLine (level : LogLevel) : 10 ∉ levelStr level := by
  cases level <;> decide

theorem LogStatement.OfEcho.oneLine {st : LogStatement} (h : st.OfEcho) :
    10 ∉ st.text := by
  obtain ⟨hfile, c, e, hlog⟩ := h
  have hbody := EchoEvent.logs_oneLine hlog
  have hname : 10 ∉ literal "main.cpp" := by decide
  simp only [text, formatLog, hfile, List.mem_append, not_or]
  exact ⟨⟨⟨⟨⟨⟨levelStr_oneLine _, by decide⟩, hname⟩, by decide⟩,
    number_oneLine _⟩, by decide⟩, hbody⟩

theorem logDropped_oneLine (n : Nat) : 10 ∉ (Payload.logDropped n).bytes := by
  have htext : (Payload.logDropped n).bytes =
      literal "[LOG_DROPPED] " ++ literal (toString n) ++
        literal " messages lost" := by
    simp [Payload.bytes, literal]
  rw [htext]
  simp only [List.mem_append, not_or]
  exact ⟨⟨by decide, number_clear (by decide) n⟩, by decide⟩

/-! ## The servers -/

namespace LogProgram

variable {ι : Type _} [DecidableEq ι]

/-- If a thread comes to a statement, it is one of the echo server's. -/
def Label.OfEcho : Label ι → Prop
  | .log _ st => st.OfEcho
  | _ => True

/-- The program is an echo server, and this is what it may have come to. -/
def IsEcho (s : LogProgram ι) : Prop :=
  ∃ (opts : Options) (n : Nat) (ls : List (Label ι)),
    Machine.run step (new opts n) ls = some s ∧ ∀ l ∈ ls, l.OfEcho

theorem holds_run {ls : List (Label ι)} {s t : LogProgram ι}
    (hls : ∀ l ∈ ls, l.OfEcho) (hs : s.Holds LogStatement.OfEcho)
    (hrun : Machine.run step s ls = some t) : t.Holds LogStatement.OfEcho := by
  refine Machine.run_preserves_of_mem (fun {s l s'} hl hs hs' => ?_) hs hrun
  refine holds_step hs (fun p st heq _ => ?_) hs'
  have hecho := hls l hl
  rw [heq] at hecho
  exact hecho

end LogProgram

namespace LogCollector

open LogSender LogServer LogProgram Session

variable {ι : Type _} [DecidableEq ι]

/-- The other end of a connection is a socket of an echo server's sender, and
some of what was written there has arrived. -/
structure Served (c : LogCollector) (k : Nat) (s : LogProgram ι) (fd : Nat) :
    Prop where
  server : s.IsEcho
  wire : bytes (c.heard k) <+: written (s.sender.conns fd).log
  size : ∀ p ∈ sentOn s.sender.passed fd, p.bytes.length < 2 ^ 32

/-- A line that a server has logged, or its sender. -/
def Genuine (s : LogProgram ι) (line : List UInt8) : Prop :=
  (∃ st ∈ s.stored, line = st.text) ∨
    ∃ n, line = (Payload.logDropped n).bytes

theorem Genuine.oneLine {s : LogProgram ι} (hs : s.IsEcho)
    {line : List UInt8} (h : Genuine s line) : 10 ∉ line := by
  obtain ⟨opts, n, ls, hrun, hls⟩ := hs
  have hholds := holds_run hls (holds_new _ opts n) hrun
  rcases h with ⟨st, hst, rfl⟩ | ⟨n, rfl⟩
  · exact (hholds.stored st hst).oneLine
  · exact logDropped_oneLine n

/-- What was written for a connection. -/
theorem Served.payloads {c : LogCollector} (hc : c.Kept) {k fd : Nat}
    {s : LogProgram ι} (hs : c.Served k s fd) :
    (∀ line ∈ payloadsOf c.entries k, Genuine s line) ∧
      ∃ sts, (payloadsOf c.entries k).filterMap readFields =
        sts.map LogStatement.fields ∧ List.Sublist sts s.stored := by
  obtain ⟨opts, n, ls, hrun, hls⟩ := hs.server
  have hholds := holds_run hls (holds_new _ opts n) hrun
  obtain ⟨t, hserver, hown, -⟩ := hc.heard k
  obtain ⟨ps, sts, hps, htexts, hsts⟩ :=
    arrived_texts hrun hs.wire hserver hs.size
  have hpayloads : payloadsOf c.entries k = ps.map Payload.bytes := by
    rw [hc.own, ← hown, hps]
  rw [hpayloads]
  refine ⟨fun line hline => ?_, sts, ?_, hsts⟩
  · obtain ⟨p, hp, rfl⟩ := List.mem_map.mp hline
    cases p with
    | msg bytes =>
        have hmem : bytes ∈ ps.filterMap Payload.message? :=
          List.mem_filterMap.mpr ⟨_, hp, rfl⟩
        rw [htexts] at hmem
        obtain ⟨st, hst, rfl⟩ := List.mem_map.mp hmem
        exact .inl ⟨st, hsts.subset hst, rfl⟩
    | logDropped n => exact .inr ⟨n, rfl⟩
  · rw [read_messages, htexts]
    refine read_texts fun st hst => ?_
    have hfile := (hholds.stored st (hsts.subset hst)).1
    rw [hfile]
    decide

/-- In a run in which nothing goes wrong with the files, with an echo server
behind each connection: the files, in the order of their days and numbers and
read line by line, are lines that one of the servers has logged, as they were
logged, and of what one has logged over one connection they tell in its order
and each once. -/
theorem log_genuine {config : LogConfig} {ls : List Label} {c : LogCollector}
    (hok : Machine.Meets step Ok (new config) ls)
    (hrun : Machine.run step (new config) ls = some c)
    (htime : ∀ e ∈ c.entries, e.now.InRange) {servers : Nat → LogProgram ι}
    {fds : Nat → Nat} (hserved : ∀ k < c.count, c.Served k (servers k) (fds k)) :
    ∃ ks : List (LocalDate × Nat),
      c.store.dir.names = ks.map (LogDir.nameAt config) ∧
      ks.Pairwise (fun k k' => k.1 < k'.1 ∨ k.1 = k'.1 ∧ k.2 < k'.2) ∧
      readLog (ks.flatMap fun k => c.store.bytes (LogDir.nameAt config k)) =
        c.entries.map (·.payload) ∧
      (∀ e ∈ c.entries, e.conn < c.count ∧
        Genuine (servers e.conn) e.payload) ∧
      ∀ k < c.count, ∃ sts,
        (payloadsOf c.entries k).filterMap readFields =
          sts.map LogStatement.fields ∧
        List.Sublist sts (servers k).stored := by
  have hkept : c.Kept :=
    Machine.run_preserves (fun hc h => kept_step hc h) (kept_new config) hrun
  have hgenuine : ∀ e ∈ c.entries, e.conn < c.count ∧
      Genuine (servers e.conn) e.payload := by
    intro e he
    have hmem : e.payload ∈ payloadsOf c.entries e.conn :=
      List.mem_map.mpr ⟨e, List.mem_filter.mpr ⟨he, by simp⟩, rfl⟩
    have hlt : e.conn < c.count := by
      refine Nat.lt_of_not_le fun hle => ?_
      rw [hkept.own, (hkept.fresh e.conn hle).1] at hmem
      cases hmem
    exact ⟨hlt, ((hserved e.conn hlt).payloads hkept).1 _ hmem⟩
  obtain ⟨ks, hnames, horder, hfiles⟩ := files_of_ok hok hrun
  refine ⟨ks, hnames, horder, ?_, hgenuine, fun k hk => ?_⟩
  · rw [hfiles, readLog_lines fun e he => ⟨htime e he, ?_⟩]
    obtain ⟨hlt, hline⟩ := hgenuine e he
    exact hline.oneLine (hserved e.conn hlt).server
  · exact ((hserved k hk).payloads hkept).2

/-- A client that sends a line break has sent this. -/
def broken : LogStatement :=
  ⟨.DEBUG, literal "/srv/main.cpp", 138,
    literal "recv 3 bytes from fd=7 peer=127.0.0.1:5000 | \"a b\""⟩

theorem ofEcho_broken : broken.OfEcho :=
  ⟨by decide, ⟨7, (127, 0, 0, 1), 5000⟩, .message (literal "a\nb"),
    by decide +kernel⟩

/-- It is logged and sent. -/
def logging : List (LogProgram.Label Unit) :=
  [.sender .start, .sender (.functor .inProgress), .sender (.handshake false),
    .setGlobal true, .log () broken, .push (), .sender (.leave ()),
    .sender (.wake ()), .sender (.functor .inProgress),
    .sender (.drain [[.accepted 75]])]

/-- It comes in two batches. -/
def collecting (s : List UInt8) : List Label :=
  let august : LocalDate := ⟨2026, 8, 9, by decide, by decide⟩
  [.construct ⟨august, {}⟩, .accept,
    .batch 0 [.data (s.take 6), .stop .eagain] [],
    .batch 0 [.data (s.drop 6), .stop .eagain]
      [⟨⟨august, 23, 59, 59, 7⟩, ⟨august, {}⟩, ⟨august, {}⟩, ⟨august, {}⟩⟩]]

theorem log_genuine_broken :
    ∃ (s : LogProgram Unit) (c : LogCollector),
      Machine.run LogProgram.step (.new {} 0) logging = some s ∧
      Machine.run step (new small)
        (collecting (written (s.sender.conns 0).log)) = some c ∧
      ∃ ks : List (LocalDate × Nat),
        c.store.dir.names = ks.map (LogDir.nameAt small) ∧
        readLog (ks.flatMap fun k => c.store.bytes (LogDir.nameAt small k)) =
          [broken.text] := by
  have hany : (Machine.run LogProgram.step (.new {} 0) logging).any (fun s =>
      sentOn s.sender.passed 0 == [.msg broken.text] &&
      decide (Machine.Meets step Ok (new small)
        (collecting (written (s.sender.conns 0).log))) &&
      (Machine.run step (new small)
        (collecting (written (s.sender.conns 0).log))).any fun c =>
          decide (c.count = 1) &&
          bytes (c.heard 0) == written (s.sender.conns 0).log &&
          c.entries.map (·.payload) == [broken.text] &&
          c.entries.all fun e => decide (e.now.date.year < 10000 ∧
            e.now.hour < 24 ∧ e.now.min < 60 ∧ e.now.sec < 61 ∧
            e.now.ms < 1000)) = true := by decide +kernel
  obtain ⟨s, hlogging, hs⟩ := (Option.any_eq_true _ _).mp hany
  simp only [Bool.and_eq_true, decide_eq_true_eq, beq_iff_eq] at hs
  obtain ⟨⟨hpassed, hok⟩, hc⟩ := hs
  obtain ⟨c, hrun, hc⟩ := (Option.any_eq_true _ _).mp hc
  simp only [Bool.and_eq_true, decide_eq_true_eq, beq_iff_eq,
    List.all_eq_true] at hc
  obtain ⟨⟨⟨hcount, hheard⟩, hpayloads⟩, htime⟩ := hc
  have hecho : s.IsEcho := by
    refine ⟨{}, 0, logging, hlogging, ?_⟩
    simp [logging, Label.OfEcho, ofEcho_broken]
  have hserved : ∀ k < c.count, c.Served k s 0 := by
    intro k hk
    obtain rfl : k = 0 := by omega
    refine ⟨hecho, ?_, ?_⟩
    · simp only [hheard, List.prefix_refl]
    · rw [hpassed]
      decide +kernel
  obtain ⟨ks, hks, -, hread, -⟩ := log_genuine hok hrun
    (fun e he => by
      obtain ⟨h₁, h₂, h₃, h₄, h₅⟩ := htime e he
      exact ⟨h₁, h₂, h₃, h₄, h₅⟩) hserved
  exact ⟨s, c, hlogging, hrun, ks, hks, hread.trans hpayloads⟩

end LogCollector

end GameFrame
