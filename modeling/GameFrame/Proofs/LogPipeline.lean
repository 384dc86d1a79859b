import GameFrame.Proofs.LogAccepted
import GameFrame.Proofs.SenderWire

/-!
# From `push` to `append_line`

A sender, a socket and a server. On the one side are producers that push, a
queue that may be full, batches that may fail, connections that come and go, and
`stop()`; on the other batches of reads that end where they like, and a server
that closes on a bad length. In between the socket delivers the bytes that were
written, in order, up to where it was cut off.

What the server passes to `append_line` for a connection is then a beginning of
what the sender passed on it: none is missing in between, none comes twice, and
none is in pieces (`pipeline`). It ends at the first message of a size that the
server does not admit. The messages among them are some of those that were
accepted, in the order they were accepted in. And if the connection is up and
everything has arrived, it is all of it (`pipeline_whole`).
-/

namespace GameFrame

namespace LogServer

open LengthPrefixedCodec Feed Session

/-! ## The server, whatever it reads -/

/-- What was found in a stream is found in a longer one. -/
theorem frames_mono {p q : List UInt8} (h : p <+: q) :
    (parse maxLen p).frames <+: (parse maxLen q).frames := by
  obtain ⟨u, rfl⟩ := h
  cases hok : (parse maxLen p).ok with
  | true =>
      obtain ⟨fs, hfs⟩ := parse_prefix (u := u) hok
      rw [hfs]
      exact List.prefix_append _ _
  | false =>
      simp only [(parse_resumable maxLen).refuse p u hok, List.prefix_refl]

/-- At the end of the stream the connection is closed. -/
theorem receive_eof {s s' : Peer} {reads : List ReadRes} (hs : Up s)
    (hstop : readStop reads = some .eof) (h : receive s reads = some s') :
    s'.conn.state = .kDisconnected := by
  rw [receive, Session.receive, if_neg (by simp [hs.state])] at h
  obtain ⟨t, u, -, -, hend⟩ :=
    handleRead_batch hs.messageCb (by simp [hstop]) h
  rcases hend with ⟨heagain, -⟩ | ⟨-, rfl⟩
  · cases hstop.symm.trans heagain
  · exact Connection.close_state _

/-- However the bytes come and however it ends, the server finds no frame that
is not in the stream, and none but the first; and while the connection is not
closed, it has found them all. -/
theorem run_frames {batches : List (List ReadRes)} : ∀ {s t : Peer}, Up s →
    Drained (parse maxLen) s.input → Machine.run receive s batches = some t →
    ∃ fs, t.own = s.own ++ fs ∧
      fs <+: (parse maxLen (s.input ++ bytes batches)).frames ∧
      (t.conn.state ≠ .kDisconnected →
        fs = (parse maxLen (s.input ++ bytes batches)).frames) := by
  induction batches with
  | nil =>
      intro s t _ hdrained hrun
      obtain rfl : s = t := by simpa using hrun
      refine ⟨[], (List.append_nil _).symm, List.nil_prefix, fun _ => ?_⟩
      rw [parse_nothing hdrained]
  | cons reads batches ih =>
      intro s t hs hdrained hrun
      obtain ⟨s', hs', hrest⟩ := Machine.run_cons_some.mp hrun
      have hbytes : s.input ++ bytes (reads :: batches) =
          s.input ++ readBytes reads ++ bytes batches := by
        rw [List.append_assoc]
        rfl
      have hlast : s'.conn.state = .kDisconnected → t = s' := fun hclosed =>
        Option.some.inj (hrest.symm.trans (receive_closed hclosed batches))
      by_cases hfatal : readStop reads = some .fatal
      · rw [receive, Session.receive, if_neg (by simp [hs.state])] at hs'
        obtain ⟨hown, hclosed⟩ := handleRead_fatal hfatal hs'
        obtain rfl := hlast hclosed
        exact ⟨[], by rw [hown, List.append_nil], List.nil_prefix,
          fun hopen => absurd hclosed hopen⟩
      cases receive_taken hs hfatal hs' with
      | none hbad hown hclosed =>
          obtain rfl := hlast hclosed
          exact ⟨[], by rw [hown, List.append_nil], List.nil_prefix,
            fun hopen => absurd hclosed hopen⟩
      | all hok hown hup =>
          by_cases heagain : readStop reads = some .eagain
          · obtain ⟨hs'up, hinput⟩ := hup heagain
            have hdrained' : Drained (parse maxLen) s'.input := by
              rw [hinput]
              exact (parse_resumable maxLen).drained pushes_append hok
            obtain ⟨fs, hfs, hbegin, hwhole⟩ := ih hs'up hdrained' hrest
            have hgo :
                (parse maxLen (s.input ++ bytes (reads :: batches))).frames =
                (parse maxLen (s.input ++ readBytes reads)).frames ++
                  (parse maxLen (s'.input ++ bytes batches)).frames := by
              rw [hbytes, (parse_resumable maxLen).resume _ _ hok, ← hinput,
                Outcome.after_frames]
            refine ⟨(parse maxLen (s.input ++ readBytes reads)).frames ++ fs,
              ?_, ?_, fun hopen => ?_⟩
            · rw [hfs, hown, List.append_assoc]
            · rw [hgo]
              exact (List.prefix_append_right_inj _).mpr hbegin
            · rw [hgo, hwhole hopen]
          · have heof : readStop reads = some .eof := by
              cases hstop : readStop reads with
              | none =>
                  -- A loop of reads that is over has come to a stop.
                  rw [receive, Session.receive,
                    if_neg (by simp [hs.state])] at hs'
                  obtain ⟨_, _, -, -, ⟨h, -⟩ | ⟨h, -⟩⟩ :=
                    handleRead_batch hs.messageCb hfatal hs'
                  · cases hstop.symm.trans h
                  · cases hstop.symm.trans h
              | some e =>
                  cases e with
                  | eof => rfl
                  | fatal => exact absurd hstop hfatal
                  | eagain => exact absurd hstop heagain
            have hclosed := receive_eof hs heof hs'
            obtain rfl := hlast hclosed
            refine ⟨_, hown, ?_, fun hopen => absurd hclosed hopen⟩
            rw [hbytes]
            exact frames_mono (List.prefix_append _ _)

/-- A stream of records is understood up to the first that is not admitted. -/
theorem parse_records {fs : List (List UInt8)}
    (hsize : ∀ f ∈ fs, f.length < 2 ^ 32) :
    (parse maxLen (fs.map record).flatten).frames =
      fs.takeWhile fun f => 1 ≤ f.length ∧ f.length ≤ maxLen := by
  induction fs with
  | nil => rw [List.map_nil, List.flatten_nil, parse_short (by decide)]; rfl
  | cons f fs ih =>
      have hf := hsize f List.mem_cons_self
      rw [List.map_cons, List.flatten_cons]
      by_cases hadm : Admissible maxLen f
      · rw [parse_front maxLen_lt hadm, Outcome.after_frames,
          ih fun g hg => hsize g (List.mem_cons_of_mem f hg),
          List.takeWhile_cons_of_pos (by simpa [Admissible] using hadm)]
        rfl
      · have hbad : BadHeader maxLen (record f ++ (fs.map record).flatten) := by
          refine ⟨?_, ?_⟩
          · rw [List.length_append, record_length]
            omega
          · rw [value_take_record hf]
            rw [Admissible] at hadm
            omega
        rw [parse_bad hbad, List.takeWhile_cons_of_neg]
        simpa [Admissible] using hadm

end LogServer

namespace LogSender

open LengthPrefixedCodec LogServer Session

variable {ι : Type _}

/-! ## The messages of a sender -/

/-- What was passed on comes first and what is queued behind it, each of it
once, and in the order it was accepted in. -/
structure Ordered (w : LogSender ι) : Prop where
  wf : w.queue.Wf
  messages : List.Sublist
    (w.passed.filterMap (·.2.message?) ++ w.queue.contents) w.accepted

/-- Neither is touched. -/
structure Kept (w w' : LogSender ι) : Prop where
  opts : w'.opts = w.opts
  passed : w'.passed = w.passed
  accepted : w'.accepted = w.accepted
  contents : w'.queue.contents = w.queue.contents
  wf : w.queue.Wf → w'.queue.Wf

theorem Kept.refl (w : LogSender ι) : Kept w w := ⟨rfl, rfl, rfl, rfl, id⟩

theorem Kept.trans {w₁ w₂ w₃ : LogSender ι} (h : Kept w₁ w₂)
    (h' : Kept w₂ w₃) : Kept w₁ w₃ :=
  ⟨h'.opts.trans h.opts, h'.passed.trans h.passed,
    h'.accepted.trans h.accepted, h'.contents.trans h.contents, h'.wf ∘ h.wf⟩

theorem Steady.kept {w w' : LogSender ι} (h : Steady w w' []) : Kept w w' where
  opts := h.opts
  passed := h.passed.trans (List.append_nil _)
  accepted := h.accepted
  contents := by rw [h.queue]
  wf := fun hwf => h.queue ▸ hwf

theorem kept_takeDropped (w : LogSender ι) (stopping : Bool) :
    Kept w (w.takeDropped stopping) :=
  ⟨rfl, rfl, rfl, rfl, fun h => h.takeDropped⟩

theorem kept_onTick (w : LogSender ι) : Kept w w.onTick := by
  rw [onTick]
  split
  · exact .refl w
  · split
    · exact kept_takeDropped w false
    · exact (steady_scheduleNextTick w).kept

theorem kept_stopInLoop (w : LogSender ι) : Kept w w.stopInLoop := by
  rw [stopInLoop]
  split
  · exact .refl w
  · have hcancel : Kept w { w with stopped := true }.cancelTick := by
      have hstop : Kept w { w with stopped := true } := ⟨rfl, rfl, rfl, rfl, id⟩
      exact hstop.trans (steady_cancelTick { w with stopped := true }).kept
    dsimp only
    split
    · exact hcancel.trans (kept_takeDropped _ true)
    · exact hcancel.trans (steady_stopRest _).kept

theorem kept_startInLoop (w : LogSender ι) (d : Dial) :
    Kept w (w.startInLoop d) := by
  rw [startInLoop]
  split
  · exact .refl w
  · have hstart : Kept w { w with started := true } := ⟨rfl, rfl, rfl, rfl, id⟩
    dsimp only
    split
    · exact hstart.trans (frame_steady.fail _ _).kept
    · exact hstart.trans
        ((steady_settle _ _).kept.trans (steady_scheduleNextTick _).kept)

theorem kept_runFunctor (w : LogSender ι) (d : Dial) (f : SenderFunctor) :
    Kept w (w.runFunctor d f) := by
  cases f with
  | startInLoop => exact kept_startInLoop w d
  | stopInLoop => exact kept_stopInLoop w
  | wake =>
      rw [runFunctor]
      split
      · exact .refl w
      · exact kept_onTick w
  | conn fd f =>
      cases f with
      | shutdownInLoop => exact (steady_putConn w fd _).kept
      | highWaterMark | writeComplete => exact ⟨rfl, rfl, rfl, rfl, id⟩

theorem kept_fireTimer (w : LogSender ι) (d : Dial) (k : TimerKind) :
    Kept w (w.fireTimer d k) := by
  cases k with
  | tick =>
      have hfired : Kept w { w with tickTimerId := 0 } :=
        ⟨rfl, rfl, rfl, rfl, id⟩
      exact hfired.trans (kept_onTick _)
  | retry =>
      rw [fireTimer]
      split
      · exact (frame_steady.fail w _).kept
      · exact (steady_settle w _).kept

theorem kept_behindDrain (stopping : Bool) (w : LogSender ι) :
    Kept w (behindDrain stopping w) := by
  rw [behindDrain]
  split
  · exact .refl w
  · split
    · exact (steady_stopRest w).kept
    · exact (steady_scheduleNextTick w).kept

theorem Ordered.kept {w w' : LogSender ι} (hw : w.Ordered) (h : Kept w w') :
    w'.Ordered := by
  refine ⟨h.wf hw.wf, ?_⟩
  rw [h.passed, h.accepted, h.contents]
  exact hw.messages

/-- A batch passes on a beginning of itself, and is over before its end only if
a null pointer is followed. -/
theorem sendBatch_sends {batch : List Payload} :
    ∀ {w w' : LogSender ι} {scripts : List (List WriteRes)},
    w.sendBatch batch scripts = some w' →
    ∃ sent, Steady w w' sent ∧ sent.map (·.2) <+: batch ∧
      (w'.fault = none → sent.map (·.2) = batch) := by
  induction batch with
  | nil =>
      intro w w' scripts h
      rw [sendBatch] at h
      split at h
      · cases h
        exact ⟨[], .refl w, List.nil_prefix, fun _ => rfl⟩
      · cases h
  | cons p ps ih =>
      intro w w' scripts h
      cases hconn : w.connection with
      | none =>
          obtain ⟨-, rfl⟩ := sendBatch_reset hconn h
          refine ⟨[], frame_steady.fail w _, List.nil_prefix, fun hlive => ?_⟩
          exact absurd hlive (fail_fault w _)
      | some fd =>
          obtain ⟨ws, rest, c, rfl, hsend, hrest⟩ := sendBatch_cons hconn h
          obtain ⟨sent, hsteady, hbegin, hall⟩ := ih hrest
          have hpass : Steady w
              ({ w with passed := w.passed ++ [(fd, p)] }.putConn fd c)
              [(fd, p)] := by
            have hbook : Steady w { w with passed := w.passed ++ [(fd, p)] }
                [(fd, p)] := ⟨rfl, rfl, rfl, rfl, rfl, rfl, rfl⟩
            exact hbook.trans (steady_putConn _ fd c)
          exact ⟨_, hpass.trans hsteady, (List.prefix_cons_inj p).mpr hbegin,
            fun hlive => congrArg (p :: ·) (hall hlive)⟩

theorem Ordered.finishDrain {w w' : LogSender ι} (hw : w.Ordered)
    {dropped : Nat} {stopping : Bool} {scripts : List (List WriteRes)}
    (h : w.finishDrain dropped stopping scripts = some w') : w'.Ordered := by
  obtain ⟨w₁, hdrain, rfl⟩ := Option.map_eq_some_iff.mp h
  obtain ⟨taken, htaken, hwf, -, -, hcontents, -⟩ :=
    MPSCQueue.drain_splits hw.wf [] w.opts.maxBatchPerTick
  rw [List.nil_append] at htaken
  rw [drainAndSend_eq] at hdrain
  obtain ⟨sent, hsteady, hsent, -⟩ := sendBatch_sends hdrain
  have hbatch : sent.map (·.2) <+: batch dropped taken := by
    rw [← htaken]
    exact hsent
  -- What goes out is a part of what was taken, and the rest is lost.
  have hpart : List.Sublist (sent.filterMap (·.2.message?)) taken := by
    have hall := messages_batch 0 dropped taken
    rw [List.filterMap_map] at hall
    rw [← hall, show sent.filterMap (·.2.message?) =
      (sent.map (·.2)).filterMap Payload.message? from by
        rw [List.filterMap_map]; rfl]
    exact hbatch.sublist.filterMap _
  have hdone : w₁.Ordered := by
    refine ⟨by rw [hsteady.queue]; exact hwf, ?_⟩
    rw [hsteady.passed, hsteady.queue, hsteady.accepted,
      List.filterMap_append, List.append_assoc]
    refine List.Sublist.trans ?_ hw.messages
    rw [← hcontents]
    exact (List.Sublist.refl _).append (hpart.append (List.Sublist.refl _))
  exact hdone.kept (kept_behindDrain stopping w₁)

theorem ordered_new (opts : Options) : (new opts : LogSender ι).Ordered where
  wf := MPSCQueue.wf_new _
  messages := List.Sublist.refl _

/-! ## Both ends -/

/-- The server admits it. -/
def admits (p : Payload) : Bool :=
  decide (1 ≤ p.bytes.length ∧ p.bytes.length ≤ maxLen)

theorem wire_records (ps : List Payload) :
    wire ps = ((ps.map Payload.bytes).map record).flatten := by
  simp only [wire, List.map_map, List.flatMap_def, Function.comp_def, encode_eq,
    record]

theorem frames_wire {ps : List Payload}
    (hsize : ∀ p ∈ ps, p.bytes.length < 2 ^ 32) :
    (parse maxLen (wire ps)).frames =
      (ps.takeWhile admits).map Payload.bytes := by
  rw [wire_records, parse_records, List.takeWhile_map]
  · rfl
  · intro f hf
    obtain ⟨p, hp, rfl⟩ := List.mem_map.mp hf
    exact hsize p hp

/-- The messages among what was passed on one socket. -/
theorem messages_sentOn (passed : List (Nat × Payload)) (fd : Nat) :
    List.Sublist ((sentOn passed fd).filterMap Payload.message?)
      (passed.filterMap (·.2.message?)) := by
  rw [sentOn, List.filterMap_map]
  exact List.filter_sublist.filterMap _

/-- What comes of a part of what was written, at the server. -/
theorem Wired.arrives {w : LogSender ι} (hw : w.Wired) {fd : Nat}
    {batches : List (List ReadRes)} {t : Peer}
    (hwire : bytes batches <+: GameFrame.written (w.conns fd).log)
    (hserver : Machine.run receive newPeer batches = some t)
    (hsize : ∀ p ∈ sentOn w.passed fd, p.bytes.length < 2 ^ 32) :
    ∃ ps, t.own = ps.map Payload.bytes ∧
      ps <+: (sentOn w.passed fd).takeWhile admits := by
  obtain ⟨fs, hfs, hframes, -⟩ :=
    run_frames up_newPeer (parse_short (by decide)) hserver
  have hbegin : t.own <+:
      ((sentOn w.passed fd).takeWhile admits).map Payload.bytes := by
    rw [← frames_wire hsize, hfs]
    exact hframes.trans (frames_mono (hwire.trans (hw.written fd)))
  obtain ⟨ps, hps, hown⟩ := List.prefix_map_iff.mp hbegin
  exact ⟨ps, hown, hps⟩

/-! ## Runs -/

variable [DecidableEq ι]

def Label.isDrain : Label ι → Bool
  | .drain _ => true
  | _ => false

/-- What a step has to do with the messages: one comes in, or it is a `drain`,
or it lets them be. -/
inductive Touched (w : LogSender ι) : Label ι → LogSender ι → Prop where
  | enter (p : ι) (msg : List UInt8) : Touched w (.enter p msg) (w.enter p msg)
  | drain (scripts : List (List WriteRes)) (dropped : Nat) (stopping : Bool)
      (w' : LogSender ι) :
      w.finishDrain dropped stopping scripts = some w' →
      Touched w (.drain scripts) w'
  | kept (l : Label ι) (w' : LogSender ι) : l.isDrain = false → Kept w w' →
      Touched w l w'

theorem step_touched {w w' : LogSender ι} {l : Label ι}
    (h : w.step l = some w') : Touched w l w' := by
  cases (step_stepped h).2 with
  | enter p msg => exact .enter p msg
  | leave p ok =>
      exact .kept _ _ rfl ⟨rfl, rfl, rfl, MPSCQueue.contents_pushUnlocked _ ok,
        fun hwf => hwf.pushUnlocked ok⟩
  | wake | start | stop => exact .kept _ _ rfl ⟨rfl, rfl, rfl, rfl, id⟩
  | drain scripts dropped stopping _ hloop hfinish =>
      exact .drain scripts dropped stopping w' hfinish
  | functor d f fs =>
      have hpop : Kept w { w with pending := fs } := ⟨rfl, rfl, rfl, rfl, id⟩
      exact .kept _ _ rfl (hpop.trans (kept_runFunctor _ d f))
  | timer id d t =>
      have hcancel : Kept w (w.cancelTimer id) :=
        ⟨rfl, rfl, rfl, rfl, fun h => h⟩
      exact .kept _ _ rfl (hcancel.trans (kept_fireTimer _ d t.kind))
  | handshake => exact .kept _ _ rfl (steady_settle w _).kept
  | event fd revents d c => exact .kept _ _ rfl (steady_putConn w fd c).kept

theorem ordered_step {w w' : LogSender ι} {l : Label ι} (hw : w.Ordered)
    (h : w.step l = some w') : w'.Ordered := by
  cases step_touched h with
  | enter p msg =>
      refine ⟨hw.wf.pushLocked msg, ?_⟩
      show List.Sublist (_ ++ (w.queue.pushLocked msg).2.contents) _
      rw [MPSCQueue.contents_pushLocked hw.wf, ← List.append_assoc]
      exact hw.messages.append (List.Sublist.refl _)
  | drain scripts dropped stopping _ hfinish => exact hw.finishDrain hfinish
  | kept l w' _ hkept => exact hw.kept hkept

theorem ordered_reachable {opts : Options} {ls : List (Label ι)}
    {w : LogSender ι} (hrun : Machine.run step (new opts) ls = some w) :
    w.Ordered :=
  Machine.run_preserves (fun hw h => ordered_step hw h) (ordered_new opts) hrun

/-- In every run of a sender, whatever part of the bytes it has written on a
socket has come to the server, in whatever batches, what the server has written
for the connection is the beginning of what was passed on it, up to the first
payload it does not admit, and its messages are accepted ones, in order. -/
theorem pipeline {opts : Options} {ls : List (Label ι)} {w : LogSender ι}
    (hrun : Machine.run step (new opts) ls = some w) {fd : Nat}
    {batches : List (List ReadRes)} {t : Peer}
    (hwire : bytes batches <+: written (w.conns fd).log)
    (hserver : Machine.run receive newPeer batches = some t)
    (hsize : ∀ p ∈ sentOn w.passed fd, p.bytes.length < 2 ^ 32) :
    ∃ ps, t.own = ps.map Payload.bytes ∧
      ps <+: (sentOn w.passed fd).takeWhile admits ∧
      List.Sublist (ps.filterMap Payload.message?) w.accepted := by
  obtain ⟨ps, hown, hps⟩ := (wired_reachable hrun).arrives hwire hserver hsize
  refine ⟨ps, hown, hps, ?_⟩
  have hpart : List.Sublist ps (sentOn w.passed fd) :=
    hps.sublist.trans (List.takeWhile_sublist _)
  have hqueued := (ordered_reachable hrun).messages
  exact (hpart.filterMap _).trans ((messages_sentOn _ _).trans
    ((List.sublist_append_left _ _).trans hqueued))

/-- A second message that the socket takes three bytes of, and fails. -/
def failing : List (Label Unit) :=
  up ++ ([.enter () [7], .leave (), .wake (), .enter () [8, 9], .leave (),
    .functor .inProgress,
    .drain [[.accepted 5], [.accepted 3, .stop .fatal]]] : List (Label Unit))

/-- In two batches, the second behind the first byte of the second frame. -/
def halves (s : List UInt8) : List (List ReadRes) :=
  [[.data (s.take 6), .stop .eagain], [.data (s.drop 6), .stop .eof]]

theorem bytes_halves (s : List UInt8) : bytes (halves s) = s := by
  simp [bytes, halves, readBytes]

theorem pipeline_failing :
    ∃ (w : LogSender Unit) (t : Peer),
      Machine.run step (new {}) failing = some w ∧
      Machine.run receive newPeer (halves (written (w.conns 0).log)) =
        some t ∧
      t.own = [[7]] ∧ w.accepted = [[7], [8, 9]] ∧
      ∃ ps, t.own = ps.map Payload.bytes ∧
        ps <+: (sentOn w.passed 0).takeWhile admits ∧
        List.Sublist (ps.filterMap Payload.message?) w.accepted := by
  have hany : (Machine.run step (new {}) failing).any (fun w =>
      w.accepted == [[7], [8, 9]] &&
      w.passed == [(0, .msg [7]), (0, .msg [8, 9])] &&
      (Machine.run receive newPeer (halves (written (w.conns 0).log))).any
        fun t => t.own == [[7]]) = true := by decide +kernel
  obtain ⟨w, hrun, hw⟩ := (Option.any_eq_true _ _).mp hany
  simp only [Bool.and_eq_true, beq_iff_eq] at hw
  obtain ⟨⟨haccepted, hpassed⟩, hw⟩ := hw
  obtain ⟨t, hserver, ht⟩ := (Option.any_eq_true _ _).mp hw
  refine ⟨w, t, hrun, hserver, eq_of_beq ht, haccepted,
    pipeline hrun ?_ hserver ?_⟩
  · simp only [bytes_halves, List.prefix_refl]
  · rw [hpassed]
    decide

/-- While the connection is up, with nothing left to write, and all that was
written has arrived, the server has written all that was passed on it. -/
theorem pipeline_whole {opts : Options} {ls : List (Label ι)}
    {w : LogSender ι} (hrun : Machine.run step (new opts) ls = some w)
    {fd : Nat} (hopen : (w.conns fd).state ≠ .kDisconnected)
    (hempty : (w.conns fd).outputBuffer.readable = [])
    {batches : List (List ReadRes)} {t : Peer}
    (hwire : bytes batches = written (w.conns fd).log)
    (hanswered : Answered batches)
    (hserver : Machine.run receive newPeer batches = some t)
    (hsize : ∀ p ∈ sentOn w.passed fd, admits p = true) :
    t.own = (sentOn w.passed fd).map Payload.bytes := by
  have hw := wired_reachable hrun
  have hall : written (w.conns fd).log = wire (sentOn w.passed fd) := by
    rw [← accepted_of_frames (hw.frames fd), ← (hw.streams fd).all hopen,
      hempty, List.append_nil]
  have hadmitted : ∀ f ∈ (sentOn w.passed fd).map Payload.bytes,
      Admissible maxLen f := by
    intro f hf
    obtain ⟨p, hp, rfl⟩ := List.mem_map.mp hf
    have hp := hsize p hp
    simpa [admits, Admissible] using hp
  have hparse := parse_part (q := []) hadmitted (by decide)
  rw [List.append_nil, ← wire_records, ← hall, ← hwire] at hparse
  have hnil : ∀ s : List UInt8, newPeer.input ++ s = s := fun s => rfl
  cases run_written up_newPeer (parse_short (by decide)) hanswered hserver with
  | all hok hown _ =>
      rw [hnil] at hown
      rw [hown, hparse.2]
      rfl
  | upTo pre reads post heq hok hbad hown =>
      have hrefused := parse_refused (bytes post) hbad
      rw [hnil, ← bytes_append, List.append_assoc, List.singleton_append, ← heq,
        hparse.1] at hrefused
      cases hrefused

/-- Two messages, the second of them taken in two pieces. -/
def draining : List (Label Unit) :=
  up ++ ([.enter () [7], .leave (), .wake (), .enter () [8, 9], .leave (),
    .functor .inProgress,
    .drain [[.accepted 5], [.accepted 3, .stop .eagain]],
    .event 0 EPOLLOUT { writes := [.eintr, .accepted 3] }] :
      List (Label Unit))

theorem pipeline_whole_draining :
    ∃ (w : LogSender Unit) (t : Peer),
      Machine.run step (new {}) draining = some w ∧
      sentOn w.passed 0 = [.msg [7], .msg [8, 9]] ∧
      t.own = (sentOn w.passed 0).map Payload.bytes := by
  have hany : (Machine.run step (new {}) draining).any (fun w =>
      sentOn w.passed 0 == [.msg [7], .msg [8, 9]] &&
      (w.conns 0).state == .kConnected &&
      (w.conns 0).outputBuffer.readable == [] &&
      (Machine.run receive newPeer
        (halves (written (w.conns 0).log))).isSome) = true := by decide +kernel
  obtain ⟨w, hrun, hw⟩ := (Option.any_eq_true _ _).mp hany
  simp only [Bool.and_eq_true, beq_iff_eq] at hw
  obtain ⟨⟨⟨hpassed, hstate⟩, hempty⟩, hsome⟩ := hw
  obtain ⟨t, hserver⟩ := Option.isSome_iff_exists.mp hsome
  refine ⟨w, t, hrun, hpassed, pipeline_whole hrun (by simp [hstate]) hempty
    (bytes_halves _) ⟨rfl, ?_⟩ hserver ?_⟩
  · show readStop [.data _, .stop .eof] ≠ _
    simp [readStop]
  · rw [hpassed]
    decide

end LogSender

end GameFrame
