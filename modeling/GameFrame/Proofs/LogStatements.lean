import GameFrame.Lib.Decimal
import GameFrame.LogSender.Logging
import GameFrame.Proofs.LogPipeline

/-!
# What a log says of the program

A line that `format_log` has made can be taken apart again: the level, the name
of the file, the line and the text are all there, as long as there is no colon
in the name (`readFields_text`). What the sender itself adds, that something was
lost, is not taken for a statement.

So whoever reads the payloads of one connection reads statements that the
program has stored, in their order and each of them once, whatever the sender,
the connection and the threads do (`statements_recovered`). Those that are
missing were lost on the way, and none of those that were switched off is there.
-/

namespace GameFrame

/-! ## Names of files -/

theorem basenameLoop_spec (p : List UInt8) : ∀ base : List UInt8,
    (47 ∉ p → basenameLoop base p = base) ∧
      (47 ∈ p → 47 ∉ basenameLoop base p ∧
        ∃ dir, p = dir ++ 47 :: basenameLoop base p) := by
  induction p with
  | nil => exact fun base => ⟨fun _ => rfl, nofun⟩
  | cons c p ih =>
      intro base
      rw [basenameLoop]
      by_cases hmore : 47 ∈ p
      · obtain ⟨hclear, dir, hdir⟩ := (ih (if c = 47 then p else base)).2 hmore
        refine ⟨fun hno => ?_, fun _ => ⟨hclear, c :: dir, ?_⟩⟩
        · exact absurd (List.mem_cons_of_mem c hmore) hno
        · rw [List.cons_append, ← hdir]
      · rw [(ih _).1 hmore]
        constructor
        · intro hno
          rw [if_neg]
          rintro rfl
          exact hno List.mem_cons_self
        · intro hin
          obtain rfl : 47 = c :=
            (List.mem_cons.mp hin).resolve_right hmore
          rw [if_pos rfl]
          exact ⟨hmore, [], rfl⟩

/-- What is behind the last slash, or all of it. -/
theorem basenameOf_spec (path : List UInt8) :
    47 ∉ basenameOf path ∧
      (basenameOf path = path ∨ ∃ dir, path = dir ++ 47 :: basenameOf path) := by
  obtain ⟨hno, hsome⟩ := basenameLoop_spec path path
  by_cases hslash : 47 ∈ path
  · exact ⟨(hsome hslash).1, .inr (hsome hslash).2⟩
  · have hall : basenameOf path = path := hno hslash
    exact ⟨by rwa [hall], .inl hall⟩

/-! ## Reading a line -/

/-- What a line says. -/
structure LogFields where
  level : LogLevel
  base : List UInt8
  line : List UInt8
  body : List UInt8
  deriving DecidableEq, Repr

def LogStatement.fields (st : LogStatement) : LogFields :=
  ⟨st.level, basenameOf st.file, literal (toString st.line), st.body⟩

def readLevel (word : List UInt8) : Option LogLevel :=
  [LogLevel.DEBUG, .INFO, .WARN, .ERROR].find? fun level =>
    levelStr level = word

/-- The level stands up to the first blank, the name of the file from there to
the colon, the line from there to the next blank, and then ` | `. -/
def readFields (text : List UInt8) : Option LogFields :=
  match readLevel (text.takeWhile (· != 32)) with
  | none => none
  | some level =>
      let place := (text.dropWhile (· != 32)).drop 1
      let rest := (place.dropWhile (· != 58)).drop 1
      some
        { level
          base := place.takeWhile (· != 58)
          line := rest.takeWhile (· != 32)
          body := (rest.dropWhile (· != 32)).drop 3 }

theorem span_clear {word : List UInt8} {c : UInt8} (h : c ∉ word)
    (rest : List UInt8) :
    (word ++ c :: rest).takeWhile (· != c) = word ∧
      (word ++ c :: rest).dropWhile (· != c) = c :: rest := by
  have hall : ∀ x ∈ word, (x != c) = true := by
    intro x hx
    rw [bne_iff_ne]
    rintro rfl
    exact h hx
  constructor
  · rw [List.takeWhile_append_of_pos hall, List.takeWhile_cons_of_neg (by simp),
      List.append_nil]
  · rw [List.dropWhile_append_of_pos hall, List.dropWhile_cons_of_neg (by simp)]

theorem readLevel_levelStr (level : LogLevel) :
    readLevel (levelStr level) = some level := by
  cases level <;> rfl

theorem levelStr_clear (level : LogLevel) : 32 ∉ levelStr level := by
  cases level <;> decide

/-- There is nothing in a number but digits. -/
theorem number_clear {c : UInt8} (hc : c.toNat < 48) (n : Nat) :
    c ∉ literal (toString n) := by
  intro hmem
  obtain ⟨d, hd, rfl⟩ := List.mem_map.mp hmem
  have hdec : d ∈ Decimal.dec n := by
    rw [Decimal.dec, ← Nat.toList_repr]
    exact hd
  obtain ⟨hlow, hhigh⟩ :=
    Char.isDigit_iff_toNat.mp (Decimal.isDigit_dec hdec)
  have hrange : 48 ≤ d.toNat ∧ d.toNat ≤ 57 := ⟨hlow, hhigh⟩
  rw [UInt8.toNat_ofNat'] at hc
  omega

theorem line_clear {c : UInt8} (hc : c.toNat < 45) (line : Int) :
    c ∉ literal (toString line) := by
  have hdigit : c.toNat < 48 := by omega
  cases line with
  | ofNat n => exact number_clear hdigit n
  | negSucc n =>
      have htext : literal (toString (Int.negSucc n)) =
          45 :: literal (toString (n + 1)) := by
        have hneg : toString (Int.negSucc n) = "-" ++ (n + 1).repr := rfl
        rw [hneg, literal, String.toList_append]
        rfl
      rw [htext]
      intro hmem
      rcases List.mem_cons.mp hmem with heq | hmem
      · rw [heq] at hc
        exact absurd hc (by decide)
      · exact number_clear hdigit (n + 1) hmem

theorem readFields_text {st : LogStatement} (h : 58 ∉ basenameOf st.file) :
    readFields st.text = some st.fields := by
  have htext : st.text = levelStr st.level ++ 32 :: (basenameOf st.file ++
      58 :: (literal (toString st.line) ++ 32 :: (124 :: 32 :: st.body))) := by
    simp [LogStatement.text, formatLog, literal]
  obtain ⟨hlevel, hplace⟩ := span_clear (levelStr_clear st.level)
    (basenameOf st.file ++
      58 :: (literal (toString st.line) ++ 32 :: (124 :: 32 :: st.body)))
  obtain ⟨hbase, hrest⟩ := span_clear h
    (literal (toString st.line) ++ 32 :: (124 :: 32 :: st.body))
  have hnumber : 32 ∉ literal (toString st.line) :=
    line_clear (by decide) st.line
  obtain ⟨hline, hbody⟩ := span_clear hnumber (124 :: 32 :: st.body)
  rw [htext, readFields, hlevel, hplace, readLevel_levelStr]
  simp only [List.drop_succ_cons, List.drop_zero, hbase, hrest, hline, hbody]
  rfl

theorem readFields_logDropped (n : Nat) :
    readFields (Payload.logDropped n).bytes = none := by
  have htext : (Payload.logDropped n).bytes = literal "[LOG_DROPPED]" ++
      32 :: literal (toString n ++ " messages lost") := by
    simp [Payload.bytes, literal]
  have hclear : 32 ∉ literal "[LOG_DROPPED]" := by decide
  have hnone : readLevel (literal "[LOG_DROPPED]") = none := by decide
  rw [htext, readFields, (span_clear hclear _).1, hnone]

/-- The statements that are read are those of the messages. -/
theorem read_messages (ps : List Payload) :
    (ps.map Payload.bytes).filterMap readFields =
      (ps.filterMap Payload.message?).filterMap readFields := by
  induction ps with
  | nil => rfl
  | cons p ps ih =>
      cases p with
      | msg bytes =>
          rw [List.map_cons, List.filterMap_cons, ih]
          rfl
      | logDropped n =>
          rw [List.map_cons, List.filterMap_cons_none (readFields_logDropped n),
            ih]
          rfl

theorem read_texts {sts : List LogStatement}
    (h : ∀ st ∈ sts, 58 ∉ basenameOf st.file) :
    (sts.map LogStatement.text).filterMap readFields =
      sts.map LogStatement.fields := by
  induction sts with
  | nil => rfl
  | cons st sts ih =>
      rw [List.map_cons, List.filterMap_cons_some
        (readFields_text (h st List.mem_cons_self)),
        ih fun st' hst' => h st' (List.mem_cons_of_mem st hst'), List.map_cons]

namespace LogSender

variable {ι : Type _}

theorem accepted_finishDrain {w w' : LogSender ι} {dropped : Nat}
    {stopping : Bool} {scripts : List (List WriteRes)}
    (h : w.finishDrain dropped stopping scripts = some w') :
    w'.accepted = w.accepted := by
  obtain ⟨w₁, hdrain, rfl⟩ := Option.map_eq_some_iff.mp h
  rw [drainAndSend_eq] at hdrain
  obtain ⟨sent, hsteady, -⟩ := sendBatch_sends hdrain
  have hdone : w₁.accepted = w.accepted := hsteady.accepted
  exact (kept_behindDrain stopping w₁).accepted.trans hdone

variable [DecidableEq ι]

/-- A message is accepted in the critical section of a push, and nowhere
else. -/
theorem accepted_step {w w' : LogSender ι} {l : Label ι}
    (hl : ∀ p msg, l ≠ .enter p msg) (h : w.step l = some w') :
    w'.accepted = w.accepted := by
  cases step_touched h with
  | enter p msg => exact absurd rfl (hl p msg)
  | drain scripts dropped stopping _ hfinish =>
      exact accepted_finishDrain hfinish
  | kept l w' _ hkept => exact hkept.accepted

end LogSender

namespace LogProgram

open LogSender LogServer Session

variable {ι : Type _}

/-! ## What was stored -/

/-- What is so of a statement that is begun is so of all that were stored. -/
structure Holds (P : LogStatement → Prop) (s : LogProgram ι) : Prop where
  stored : ∀ st ∈ s.stored, P st
  inside : ∀ p st, s.inside p = some st → P st

/-- What the sender has accepted are the texts of the statements stored. -/
structure Faithful (n : Nat) (s : LogProgram ι) : Prop where
  level : s.compileLevel = n
  accepted : s.sender.accepted = s.stored.map LogStatement.text

theorem holds_new (P : LogStatement → Prop) (opts : Options) (n : Nat) :
    (new opts n : LogProgram ι).Holds P := ⟨nofun, nofun⟩

theorem faithful_new (opts : Options) (n : Nat) :
    (new opts n : LogProgram ι).Faithful n := ⟨rfl, rfl⟩

variable [DecidableEq ι]

theorem Holds.setInside {P : LogStatement → Prop} {s : LogProgram ι}
    (hs : s.Holds P) (p : ι) {o : Option LogStatement}
    (ho : ∀ st, o = some st → P st) : (s.setInside p o).Holds P := by
  refine ⟨hs.stored, fun i st hi => ?_⟩
  change (if i = p then o else s.inside i) = some st at hi
  split at hi
  · exact ho st hi
  · exact hs.inside i st hi

theorem Holds.log {P : LogStatement → Prop} {s : LogProgram ι} (hs : s.Holds P)
    (p : ι) {st : LogStatement}
    (hst : s.compileLevel ≤ st.level.toNat → P st) : (s.log p st).Holds P := by
  rw [LogProgram.log]
  split
  · exact hs
  · next hlevel =>
      split
      · exact hs
      · refine hs.setInside p fun st' hst' => ?_
        obtain rfl := Option.some.inj hst'
        exact hst (Nat.le_of_not_lt hlevel)

theorem Holds.push {P : LogStatement → Prop} {s : LogProgram ι} (hs : s.Holds P)
    {p : ι} {st : LogStatement} (hst : s.inside p = some st) :
    (s.push p st).Holds P := by
  refine ⟨fun st' hst' => ?_, (hs.setInside p (o := none) nofun).inside⟩
  rcases List.mem_append.mp hst' with hold | hnew
  · exact hs.stored st' hold
  · split at hnew
    · obtain rfl := List.mem_singleton.mp hnew
      exact hs.inside p st' hst
    · cases hnew

theorem holds_step {P : LogStatement → Prop} {s s' : LogProgram ι} {l : Label ι}
    (hs : s.Holds P) (hl : ∀ p st, l = .log p st →
      s.compileLevel ≤ st.level.toNat → P st) (h : s.step l = some s') :
    s'.Holds P := by
  cases l with
  | log p st =>
      rw [step] at h
      split at h
      · cases h
        exact hs.log p (hl p st rfl)
      · cases h
  | push p =>
      rw [step] at h
      split at h
      · cases h
      · next st hst =>
          split at h
          · cases h
          · cases h
            exact hs.push hst
  | setGlobal b =>
      cases h
      exact ⟨hs.stored, hs.inside⟩
  | sender l =>
      cases l with
      | enter p msg => cases h
      | _ =>
          obtain ⟨w, -, rfl⟩ := Option.map_eq_some_iff.mp h
          exact ⟨hs.stored, hs.inside⟩

theorem Faithful.log {n : Nat} {s : LogProgram ι} (hs : s.Faithful n) (p : ι)
    (st : LogStatement) : (s.log p st).Faithful n := by
  rw [LogProgram.log]
  split
  · exact hs
  · split
    · exact hs
    · exact ⟨hs.level, hs.accepted⟩

theorem Faithful.push {n : Nat} {s : LogProgram ι} (hs : s.Faithful n) (p : ι)
    (st : LogStatement) : (s.push p st).Faithful n := by
  refine ⟨hs.level, ?_⟩
  show s.sender.accepted ++ _ = (s.stored ++ _).map LogStatement.text
  rw [hs.accepted, List.map_append]
  congr 1
  split <;> rfl

theorem faithful_step {n : Nat} {s s' : LogProgram ι} {l : Label ι}
    (hs : s.Faithful n) (h : s.step l = some s') : s'.Faithful n := by
  cases l with
  | log p st =>
      rw [step] at h
      split at h
      · cases h
        exact hs.log p st
      · cases h
  | push p =>
      rw [step] at h
      split at h
      · cases h
      · next st hst =>
          split at h
          · cases h
          · cases h
            exact hs.push p st
  | setGlobal b =>
      cases h
      exact ⟨hs.level, hs.accepted⟩
  | sender l =>
      have hother : ∀ {w}, (∀ p msg, l ≠ .enter p msg) →
          s.sender.step l = some w → Faithful n { s with sender := w } :=
        fun hl hw => ⟨hs.level, (accepted_step hl hw).trans hs.accepted⟩
      cases l with
      | enter p msg => cases h
      | _ =>
          obtain ⟨w, hw, rfl⟩ := Option.map_eq_some_iff.mp h
          exact hother nofun hw

/-- A statement that was switched off is never stored. -/
theorem run_level {opts : Options} {n : Nat} {ls : List (Label ι)}
    {s : LogProgram ι} (hrun : Machine.run step (new opts n) ls = some s) :
    s.Faithful n ∧ s.Holds fun st => n ≤ st.level.toNat := by
  refine Machine.run_preserves
    (P := fun s => s.Faithful n ∧ s.Holds fun st => n ≤ st.level.toNat) ?_
    ⟨faithful_new opts n, holds_new _ opts n⟩ hrun
  intro s l s' hs h
  refine ⟨faithful_step hs.1 h, holds_step hs.2 (fun p st _ hst => ?_) h⟩
  rwa [hs.1.level] at hst

/-- A run of the program is one of its sender. -/
theorem sender_step {s s' : LogProgram ι} {l : Label ι}
    (h : s.step l = some s') :
    ∃ ms, Machine.run LogSender.step s.sender ms = some s'.sender := by
  cases l with
  | log p st =>
      rw [step] at h
      split at h
      · cases h
        refine ⟨[], ?_⟩
        rw [Machine.run_nil, LogProgram.log]
        repeat' split
        all_goals rfl
      · cases h
  | push p =>
      rw [step] at h
      split at h
      · cases h
      · next st hst =>
          split at h
          · cases h
          · next hgo =>
              cases h
              obtain ⟨hfault, hidle⟩ := not_or.mp hgo
              refine ⟨[.enter p st.text], ?_⟩
              rw [Machine.run_cons, LogSender.step, if_neg hfault,
                LogSender.live, if_pos (Decidable.not_not.mp hidle)]
              rfl
  | setGlobal b =>
      cases h
      exact ⟨[], rfl⟩
  | sender l =>
      have hone : ∀ {w}, s.sender.step l = some w →
          ∃ ms, Machine.run LogSender.step s.sender ms = some w :=
        fun hw => ⟨[l], Machine.run_cons_some.mpr ⟨_, hw, rfl⟩⟩
      cases l with
      | enter p msg => cases h
      | _ =>
          obtain ⟨w, hw, rfl⟩ := Option.map_eq_some_iff.mp h
          exact hone hw

/-! ## What is read of it -/

/-- What has come to the server are payloads, and the messages among them are
texts of statements that were stored. -/
theorem arrived_texts {opts : Options} {n : Nat} {ls : List (Label ι)}
    {s : LogProgram ι} (hrun : Machine.run step (new opts n) ls = some s)
    {fd : Nat} {batches : List (List ReadRes)} {t : Peer}
    (hwire : bytes batches <+: written (s.sender.conns fd).log)
    (hserver : Machine.run receive newPeer batches = some t)
    (hsize : ∀ p ∈ sentOn s.sender.passed fd, p.bytes.length < 2 ^ 32) :
    ∃ (ps : List Payload) (sts : List LogStatement),
      t.own = ps.map Payload.bytes ∧
      ps.filterMap Payload.message? = sts.map LogStatement.text ∧
      List.Sublist sts s.stored := by
  obtain ⟨hfaithful, -⟩ := run_level hrun
  obtain ⟨ms, hsender⟩ := Machine.run_simulates sender_step hrun
  obtain ⟨ps, hown, hps⟩ :=
    (wired_reachable hsender).arrives hwire hserver hsize
  have hpart : List.Sublist (ps.filterMap Payload.message?)
      (s.stored.map LogStatement.text) := by
    rw [← hfaithful.accepted]
    have htaken : List.Sublist ps (sentOn s.sender.passed fd) :=
      hps.sublist.trans (List.takeWhile_sublist _)
    exact (htaken.filterMap _).trans ((messages_sentOn _ _).trans
      ((List.sublist_append_left _ _).trans
        (ordered_reachable hsender).messages))
  obtain ⟨sts, hsts, htexts⟩ := List.sublist_map_iff.mp hpart
  exact ⟨ps, sts, hown, htexts, hsts⟩

/-- Whatever part of what the sender has written on a socket has come to the
server, what can be read there are statements the program has stored, in the
order it has stored them, each of them once, and none that was switched off. -/
theorem statements_recovered {opts : Options} {n : Nat} {ls : List (Label ι)}
    {s : LogProgram ι} (hrun : Machine.run step (new opts n) ls = some s)
    {fd : Nat} {batches : List (List ReadRes)} {t : Peer}
    (hwire : bytes batches <+: written (s.sender.conns fd).log)
    (hserver : Machine.run receive newPeer batches = some t)
    (hsize : ∀ p ∈ sentOn s.sender.passed fd, p.bytes.length < 2 ^ 32)
    (hname : ∀ st ∈ s.stored, 58 ∉ basenameOf st.file) :
    ∃ sts, t.own.filterMap readFields = sts.map LogStatement.fields ∧
      List.Sublist sts s.stored ∧ ∀ st ∈ sts, n ≤ st.level.toNat := by
  obtain ⟨-, hlevel⟩ := run_level hrun
  obtain ⟨ps, sts, hown, htexts, hsts⟩ :=
    arrived_texts hrun hwire hserver hsize
  refine ⟨sts, ?_, hsts, fun st hst => hlevel.stored st (hsts.subset hst)⟩
  rw [hown, read_messages, htexts]
  exact read_texts fun st hst => hname st (hsts.subset hst)

/-- `LOG_INFO("hi")` and `LOG_ERROR("no")`, each in a file of its own. -/
def hi : LogStatement := ⟨.INFO, literal "src/a.cpp", 3, literal "hi"⟩

def no : LogStatement := ⟨.ERROR, literal "b.cpp", -1, literal "no"⟩

/-- Two threads that have looked when the sender is unregistered, and room for
one message. -/
def twoThreads : List (Label Bool) :=
  [.sender .start, .sender (.functor .inProgress), .sender (.handshake false),
    .log true no, .setGlobal true, .log true hi, .log false no,
    .setGlobal false, .push true, .push false, .sender (.leave true),
    .sender (.leave false), .sender (.wake true),
    .sender (.functor .inProgress),
    .sender (.drain [[.accepted 33], [.accepted 21]])]

theorem statements_recovered_twoThreads :
    ∃ (s : LogProgram Bool) (t : Peer),
      Machine.run step (new { queueCapacity := 1 } 1) twoThreads = some s ∧
      s.stored = [hi] ∧ t.own.length = 2 ∧
      ∃ sts, t.own.filterMap readFields = sts.map LogStatement.fields ∧
        List.Sublist sts s.stored ∧ ∀ st ∈ sts, 1 ≤ st.level.toNat := by
  have hany : (Machine.run step (new { queueCapacity := 1 } 1) twoThreads).any
      (fun s =>
        s.stored == [hi] &&
        sentOn s.sender.passed 0 == [.logDropped 1, .msg hi.text] &&
        (Machine.run receive newPeer
          (halves (written (s.sender.conns 0).log))).any fun t =>
            t.own.length == 2) = true := by decide +kernel
  obtain ⟨s, hrun, hs⟩ := (Option.any_eq_true _ _).mp hany
  simp only [Bool.and_eq_true, beq_iff_eq] at hs
  obtain ⟨⟨hstored, hpassed⟩, hs⟩ := hs
  obtain ⟨t, hserver, ht⟩ := (Option.any_eq_true _ _).mp hs
  have hwire : bytes (halves (written (s.sender.conns 0).log)) <+:
      written (s.sender.conns 0).log := by
    simp only [bytes_halves, List.prefix_refl]
  refine ⟨s, t, hrun, hstored, eq_of_beq ht,
    statements_recovered hrun hwire hserver ?_ ?_⟩
  · rw [hpassed]
    decide +kernel
  · rw [hstored]
    decide +kernel

end LogProgram

end GameFrame
