import GameFrame.Net.Registration
import GameFrame.Proofs.ClientSockets
import GameFrame.Proofs.ConnectionChannel

/-!
# A number is registered for its owner

Whoever calls `epoll_ctl` should have the number open that he calls it about.
Nearly everybody does: a connection from its construction to `close()`, the
client for as long as the handshake goes on, and then it has taken its channel
down before the connection gets the number (`Interest.Sound` is this, and each
step is one of its rules). The one who need not is `start()`. A connection
that was closed in its connection callback is started all the same, and
`EPOLL_CTL_ADD` fails because the number is closed, unless it has been opened
again. Then a closed connection is registered for somebody else's descriptor,
and if the new owner is on the same loop he is not registered at all.

`StartOk` says that the call fails: when `start()` is called on a connection
that is closed, its number is not open, or registered already on that loop.
-/

namespace GameFrame.Registration

open Interest (Sound Slot)

/-- What is registered is open, and belongs to exactly one channel that is
`kAdded`; and it is not that of a closed connection. -/
structure Registered (w : Registration) : Prop where
  sole : ∀ l fd p, w.kernel.entry l fd = some p →
    w.kernel.opened fd = true ∧ (w.slot p).added = true ∧
      (w.slot p).list = l ∧ (w.slot p).fd = fd ∧
      ∀ q, (w.slot q).added = true → (w.slot q).fd = fd → q = p
  closed : ∀ r, (w.conns r).state = .kDisconnected →
    ∀ l fd, w.kernel.entry l fd ≠ some (.conn r)

/-- A connection that is closed when it is started has a number that cannot be
registered. -/
def StartOk (w : Registration) : Label → Prop
  | .start l => ∀ r ∈ (w.starting l).head?,
      (w.conns r).state = .kDisconnected →
        w.kernel.accepts (w.loopOf r) (w.fdOf r) (.conn r) = false
  | _ => True

instance (w : Registration) : ∀ lb, Decidable (StartOk w lb)
  | .start l => inferInstanceAs (Decidable (∀ r ∈ (w.starting l).head?, _))
  | .openOther _ | .closeOther _ | .enrol _ _ | .retire _ | .accept _
  | .functor _ | .conn _ _ | .setCallbacks _ _ _ _ _ | .destroy _
  | .connect _ _ | .retry _ _ | .connectWritable _ | .disconnect
  | .onConnectionClosed => .isTrue trivial

/-- A process at its beginning. -/
def init (n cl : Nat) (cb : Bool) : Registration :=
  { server := { numThreads := n, connectionCb := cb }, clientLoop := cl }

/-- One sub-loop. The callback closes the connection, and the main loop
accepts another with the same number before it returns. -/
theorem start_registers :
    ¬ ∀ (n cl : Nat) (cb : Bool) (ls : List Label) (w : Registration),
      Machine.run step (init n cl cb) ls = some w → w.Registered := by
  intro hall
  have hany : (Machine.run step (init 1 0 true)
      [.accept 7, .functor 1, .conn (.accepted 0) (.op .close), .accept 7,
        .start 1]).any (fun w =>
          (w.conns (.accepted 0)).state == .kDisconnected &&
            w.kernel.entry 1 7 == some (.conn (.accepted 0))) = true := by
    decide +kernel
  obtain ⟨w, hrun, hw⟩ := (Option.any_eq_true _ _).mp hany
  simp only [Bool.and_eq_true, beq_iff_eq] at hw
  exact (hall 1 0 true _ w hrun).closed _ hw.1 1 7 hw.2

/-! ## The invariant -/

structure Inv (w : Registration) : Prop where
  sound : Sound w.kernel w.slot
  enrolled : ∀ r, (w.conns r).Enrolled
  dialling : w.client.Dialling
  wf : w.client.Wf
  /-- connections that are not there yet -/
  unborn : ∀ id, w.server.accepted ≤ id →
    (w.conns (.accepted id)).state = .kDisconnected
  unused : ∀ sock, ¬ w.client.Used sock →
    (w.conns (.dialled sock)).state = .kDisconnected
  made : ∀ i, w.made ≤ i → (w.own i).fdOpen = false
  /-- the client knows the one it has -/
  current : ∀ sock, (w.conns (.dialled sock)).state ≠ .kDisconnected →
    w.client.state = .kConnected ∧ w.client.connection = some sock
  closing : w.closing = true → w.client.state = .kConnected ∧
    ∀ sock, (w.conns (.dialled sock)).state = .kDisconnected

theorem Inv.registered {w : Registration} (hw : w.Inv) : w.Registered where
  sole := fun _ _ _ he => hw.sound.entry_sole he
  closed := fun r hr _ _ => hw.sound.not_entry (p := .conn r) (by
    show ((w.conns r).state != .kDisconnected) = false
    rw [hr]
    rfl)

theorem enrolled_gone : Connection.gone.Enrolled where
  opened := fun h => absurd rfl h
  closed := fun _ => ⟨rfl, by decide⟩

theorem enrolled_new : ({} : Connection).Enrolled where
  opened := fun _ => ⟨rfl, nofun⟩
  closed := nofun

theorem inv_init (n cl : Nat) (cb : Bool) : (init n cl cb).Inv where
  sound := by
    refine Interest.sound_empty.congr fun i => ?_
    cases i with
    | connect => exact .inl rfl
    | other fd | own i | conn r => exact .inr ⟨rfl, rfl, rfl⟩
  enrolled := fun _ => enrolled_gone
  dialling := nofun
  wf := nofun
  unborn := fun _ _ => rfl
  unused := fun _ _ => rfl
  made := fun _ _ => rfl
  current := fun _ h => absurd rfl h
  closing := nofun

/-! ## A connection takes a step -/

theorem follow_closeFd (k : Interest FdOwner) (l fd : Nat) (p : FdOwner)
    (s : ChannelState) :
    (follow k l fd p s .kDeleted).closeFd fd = k.closeFd fd := by
  cases s with
  | kNew | kDeleted => rfl
  | kAdded => exact Interest.closeFd_del k l fd

theorem follow_self (k : Interest FdOwner) (l fd : Nat) (p : FdOwner)
    (s : ChannelState) : follow k l fd p s s = k := by
  cases s <;> rfl

section

variable {w : Registration} {r : ConnRef} {c' : Connection}

/-- The others stay as they are. -/
theorem slot_setConn (w : Registration) (r : ConnRef) (c : Connection)
    (k : Interest FdOwner) : ∀ p, p ≠ .conn r →
    ({ w with kernel := k }.setConn r c).slot p = w.slot p := by
  intro p hp
  cases p with
  | other fd | own i | connect => rfl
  | conn i =>
      have hi : i ≠ r := fun h => hp (congrArg FdOwner.conn h)
      simp only [slot, setConn, hi, if_false, loopOf, fdOf]

theorem live_iff {w : Registration} {r : ConnRef} :
    (w.slot (.conn r)).live = true ↔ (w.conns r).state ≠ .kDisconnected :=
  bne_iff_ne

theorem not_live_iff {w : Registration} {r : ConnRef} :
    (w.slot (.conn r)).live = false ↔ (w.conns r).state = .kDisconnected := by
  rw [← Bool.not_eq_true, live_iff, Decidable.not_not]

/-- What a connection is told about its number while it is open is yes. -/
theorem Inv.lookUp (hw : w.Inv) (r : ConnRef) : (w.lookUp r).Enrolled where
  opened := fun hopen =>
    ⟨hw.sound.accepts (p := FdOwner.conn r) (live_iff.mpr hopen),
      ((hw.enrolled r).opened hopen).2⟩
  closed := (hw.enrolled r).closed

/-- What a call does to a connection and its channel. -/
theorem Inv.moves (hw : w.Inv) (hgoes : (w.lookUp r).Goes c') :
    (w.conns r).state = .kDisconnected ∧ c'.state = .kDisconnected ∧
        (w.conns r).channel.state = .kDeleted ∧
        c'.channel.state = .kDeleted ∨
      (w.conns r).state ≠ .kDisconnected ∧ c'.state = .kDisconnected ∧
        c'.channel.state = .kDeleted ∨
      (w.conns r).state ≠ .kDisconnected ∧ c'.state ≠ .kDisconnected ∧
        ((w.conns r).channel.state = c'.channel.state ∨
          (w.conns r).channel.state = .kNew ∧
            c'.channel.state = .kAdded) := by
  by_cases hclosed : (w.conns r).state = .kDisconnected
  · have hc' := hgoes.closed hclosed
    exact .inl ⟨hclosed, hc', ((hw.enrolled r).closed hclosed).1,
      (hgoes.enrolled.closed hc').1⟩
  · refine .inr ?_
    by_cases hc' : c'.state = .kDisconnected
    · exact .inl ⟨hclosed, hc', (hgoes.enrolled.closed hc').1⟩
    · refine .inr ⟨hclosed, hc', ?_⟩
      have hbefore := ((hw.enrolled r).opened hclosed).2
      have hbehind := (hgoes.enrolled.opened hc').2
      have hadded : (w.conns r).channel.state ≠ .kNew →
          c'.channel.state ≠ .kNew := hgoes.added
      cases hs : (w.conns r).channel.state with
      | kNew =>
          cases hs' : c'.channel.state with
          | kNew => exact .inl rfl
          | kAdded => exact .inr ⟨rfl, rfl⟩
          | kDeleted => exact absurd hs' hbehind
      | kAdded =>
          cases hs' : c'.channel.state with
          | kNew => exact absurd hs' (hadded (by rw [hs]; nofun))
          | kAdded => exact .inl rfl
          | kDeleted => exact absurd hs' hbehind
      | kDeleted => exact absurd hs hbefore

/-- The kernel behind a call that closes the connection, and behind one that
does not. -/
theorem called_closes (hs : (w.conns r).state ≠ .kDisconnected)
    (hs' : c'.state = .kDisconnected) (hch' : c'.channel.state = .kDeleted) :
    (w.called r c').kernel = w.kernel.closeFd (w.fdOf r) := by
  have hcloses : w.closes r c' = true := by simp [closes, hs, hs']
  show w.connCalls r c' (w.closes r c') = _
  rw [hcloses, connCalls, hch', if_pos rfl, follow_closeFd]

theorem called_open (h : (w.conns r).state = .kDisconnected ∨
    c'.state ≠ .kDisconnected) :
    (w.called r c').kernel = follow w.kernel (w.loopOf r) (w.fdOf r) (.conn r)
      (w.conns r).channel.state c'.channel.state := by
  have hcloses : w.closes r c' = false := by
    rcases h with h | h
    · simp [closes, h]
    · simp [closes, h]
  show w.connCalls r c' (w.closes r c') = _
  rw [hcloses]
  rfl

/-- A call on a connection, and what it asks of the kernel. -/
theorem Inv.called_sound (hw : w.Inv) (hgoes : (w.lookUp r).Goes c') :
    Sound (w.called r c').kernel (w.called r c').slot := by
  have hrest : ∀ p, p ≠ .conn r → (w.called r c').slot p = w.slot p :=
    slot_setConn w r c' _
  have hnow : (w.called r c').conns r = c' := if_pos rfl
  have hslot : (w.called r c').slot (.conn r) =
      { list := w.loopOf r
        fd := w.fdOf r
        live := c'.state != .kDisconnected
        added := c'.channel.state == .kAdded } := by
    rw [slot, hnow]
    rfl
  rcases hw.moves hgoes with ⟨hs, hs', hch, hch'⟩ | ⟨hs, hs', hch'⟩ |
    ⟨hs, hs', hch⟩
  · -- it was closed before
    rw [called_open (.inl hs), hch, hch']
    refine hw.sound.congr fun p => ?_
    by_cases hp : p = .conn r
    · rw [hp, not_live_iff, hslot, hs', hch']
      exact .inr ⟨hs, rfl, rfl⟩
    · exact .inl (hrest p hp)
  · -- the call closes it
    rw [called_closes hs hs' hch']
    refine hw.sound.closeFd (p := .conn r) hrest (live_iff.mpr hs) ?_ ?_
    · rw [hslot, hs']
      rfl
    · rw [hslot, hch']
      rfl
  · rw [called_open (.inr hs')]
    have hlive := live_iff.mpr hs
    rcases hch with hch | ⟨hch, hch'⟩
    · -- it is as registered as it was
      have hsame : (w.called r c').slot (.conn r) = w.slot (.conn r) := by
        rw [hslot, slot, hch, bne_iff_ne.mpr hs, bne_iff_ne.mpr hs']
      rw [hch, follow_self]
      refine hw.sound.congr fun p => .inl ?_
      by_cases hp : p = .conn r
      · rw [hp, hsame]
      · exact hrest p hp
    · -- it is registered now
      rw [hch, hch']
      refine hw.sound.add (p := .conn r) hrest hlive ?_ ?_ ?_ ?_ ?_
      · rw [hslot]
        exact bne_iff_ne.mpr hs'
      · rw [hslot, hch']
        rfl
      · rw [hslot]
        rfl
      · rw [hslot]
        rfl
      · rw [slot, hch]
        rfl

/-- No connection is opened: a closed one stays closed. -/
theorem Inv.conns (hw : w.Inv) {k : Interest FdOwner}
    {conns : ConnRef → Connection}
    (hsound : Sound k { w with kernel := k, conns := conns }.slot)
    (hconns : ∀ i, (conns i).Enrolled ∧
      ((w.conns i).state = .kDisconnected →
        (conns i).state = .kDisconnected)) :
    Inv { w with kernel := k, conns := conns } where
  sound := hsound
  enrolled := fun i => (hconns i).1
  dialling := hw.dialling
  wf := hw.wf
  unborn := fun id hid => (hconns _).2 (hw.unborn id hid)
  unused := fun sock hs => (hconns _).2 (hw.unused sock hs)
  made := hw.made
  current := fun sock hopen => hw.current sock fun hclosed =>
    hopen ((hconns _).2 hclosed)
  closing := fun h => ⟨(hw.closing h).1, fun sock =>
    (hconns _).2 ((hw.closing h).2 sock)⟩

theorem Inv.called (hw : w.Inv) (hgoes : (w.lookUp r).Goes c') :
    (w.called r c').Inv := by
  refine hw.conns (hw.called_sound hgoes) fun i => ?_
  split
  · next hi => exact ⟨hgoes.enrolled, fun h => hgoes.closed (hi ▸ h)⟩
  · exact ⟨hw.enrolled i, id⟩

/-- The server goes on, and no connection changes its place. -/
theorem Inv.server (hw : w.Inv) {s : TcpServer}
    (h : w.server.SamePlaces s) : Inv { w with server := s } where
  sound := by
    refine hw.sound.congr fun p => .inl ?_
    cases p with
    | other fd | own i | connect => rfl
    | conn i =>
        cases i with
        | accepted id => simp only [slot, loopOf, fdOf, h.loop, h.fd]
        | dialled sock => rfl
  enrolled := hw.enrolled
  dialling := hw.dialling
  wf := hw.wf
  unborn := fun id hid => hw.unborn id (h.accepted ▸ hid)
  unused := hw.unused
  made := hw.made
  current := hw.current
  closing := hw.closing

/-- The client's connection is closed, and the client is told. -/
theorem Inv.told (hw : w.Inv) (hstate : w.client.state = .kConnected)
    (hclosed : ∀ sock, (w.conns (.dialled sock)).state = .kDisconnected)
    (closing : Bool) : Inv { w with closing := closing } where
  sound := hw.sound
  enrolled := hw.enrolled
  dialling := hw.dialling
  wf := hw.wf
  unborn := hw.unborn
  unused := hw.unused
  made := hw.made
  current := hw.current
  closing := fun _ => ⟨hstate, hclosed⟩

theorem Inv.commit (hw : w.Inv) (hgoes : (w.lookUp r).Goes c') :
    (w.commit r c').Inv := by
  have hcalled := hw.called hgoes
  unfold Registration.commit
  dsimp only
  split
  · next id =>
      split
      · exact hcalled
      · exact hcalled.server (TcpServer.samePlaces_shutdown id)
      · exact hcalled.server (TcpServer.samePlaces_close id)
  · next sock =>
      cases hcloses : w.closes (.dialled sock) c' with
      | false =>
          rw [Bool.or_false]
          exact hcalled
      | true =>
          obtain ⟨hs, hs'⟩ := (Bool.and_eq_true _ _).mp hcloses
          obtain ⟨hstate, hconn⟩ := hw.current sock (bne_iff_ne.mp hs)
          refine hcalled.told hstate (fun other => ?_) _
          refine Decidable.byContradiction fun hopen => ?_
          obtain ⟨-, hother⟩ := hcalled.current other hopen
          obtain rfl : sock = other :=
            Option.some.inj (hconn.symm.trans hother)
          have hnow : (w.called (.dialled sock) c').conns (.dialled sock) =
              c' := if_pos rfl
          rw [hnow] at hopen
          exact hopen (beq_iff_eq.mp hs')

/-- What does not touch a connection's channel. -/
theorem Inv.setConn (hw : w.Inv) (hstate : c'.state = (w.conns r).state)
    (hchannel : c'.channel = (w.conns r).channel)
    (hfd : c'.fdOpen = (w.conns r).fdOpen) : (w.setConn r c').Inv := by
  refine hw.conns (k := w.kernel) (hw.sound.congr fun p => .inl ?_)
    fun i => ?_
  · by_cases hp : p = .conn r
    · have hnow : (w.setConn r c').conns r = c' := if_pos rfl
      show (w.setConn r c').slot p = w.slot p
      rw [hp, slot, slot, hnow, hstate, hchannel]
      rfl
    · exact slot_setConn w r c' w.kernel p hp
  · split
    · next hi =>
        refine ⟨⟨?_, ?_⟩, fun h => hstate.trans (hi ▸ h)⟩
        · rw [hstate, hchannel, hfd]
          exact (hw.enrolled r).opened
        · rw [hstate, hchannel]
          exact (hw.enrolled r).closed
    · exact ⟨hw.enrolled i, id⟩

/-- A connection is destroyed, closed or not. -/
theorem Inv.destroyed_sound (hw : w.Inv) (r : ConnRef) :
    Sound (w.destroyed r).kernel (w.destroyed r).slot := by
  have hrest : ∀ p, p ≠ .conn r → (w.destroyed r).slot p = w.slot p :=
    slot_setConn w r .gone _
  have hgone : (w.destroyed r).slot (.conn r) =
      { list := w.loopOf r, fd := w.fdOf r } := by
    have hnow : (w.destroyed r).conns r = .gone := if_pos rfl
    rw [slot, hnow]
    rfl
  show Sound (w.connCalls r _ ((w.conns r).state != .kDisconnected)) _
  by_cases hclosed : (w.conns r).state = .kDisconnected
  · have hsame : (w.lookUp r).destroy = w.lookUp r :=
      if_neg (not_not_intro hclosed)
    rw [hsame, connCalls, bne_eq_false_iff_eq.mpr hclosed]
    have hkept : Sound (follow w.kernel (w.loopOf r) (w.fdOf r) (.conn r)
        (w.conns r).channel.state (w.conns r).channel.state) w.slot := by
      rw [follow_self]
      exact hw.sound
    refine hkept.congr fun p => ?_
    by_cases hp : p = .conn r
    · rw [hp, hgone]
      exact .inr ⟨not_live_iff.mpr hclosed, rfl, rfl⟩
    · exact .inl (hrest p hp)
  · have hdown : (w.lookUp r).destroy.channel.state = .kDeleted := by
      have hopen : (w.lookUp r).state ≠ .kDisconnected := hclosed
      rw [Connection.destroy, if_pos hopen]
      rfl
    rw [connCalls, hdown, bne_iff_ne.mpr hclosed, if_pos rfl, follow_closeFd]
    refine hw.sound.closeFd (p := .conn r) hrest (live_iff.mpr hclosed) ?_ ?_
    · rw [hgone]
    · rw [hgone]

theorem Inv.destroyed (hw : w.Inv) (r : ConnRef) : (w.destroyed r).Inv := by
  refine hw.conns (hw.destroyed_sound r) fun i => ?_
  split
  · exact ⟨enrolled_gone, fun _ => rfl⟩
  · exact ⟨hw.enrolled i, id⟩

theorem Inv.setStarting (hw : w.Inv) (l : Nat) (rs : List ConnRef) :
    (w.setStarting l rs).Inv :=
  ⟨hw.sound, hw.enrolled, hw.dialling, hw.wf, hw.unborn, hw.unused, hw.made,
    hw.current, hw.closing⟩

/-! ## Descriptors of others, and of the loops themselves -/

theorem Inv.rest (hw : w.Inv) {k : Interest FdOwner} {others : List Nat}
    {own : Nat → OwnChannel} {made : Nat}
    (hsound : Sound k
      { w with kernel := k, others := others, own := own, made := made }.slot)
    (hmade : ∀ i, made ≤ i → (own i).fdOpen = false) :
    Inv { w with kernel := k, others := others, own := own, made := made } where
  sound := hsound
  enrolled := hw.enrolled
  dialling := hw.dialling
  wf := hw.wf
  unborn := hw.unborn
  unused := hw.unused
  made := hmade
  current := hw.current
  closing := hw.closing

theorem Inv.openOther (hw : w.Inv) {fd : Nat}
    (hfree : w.kernel.opened fd = false) :
    Inv { w with
      kernel := w.kernel.openFd fd, others := fd :: w.others } := by
  refine hw.rest ?_ hw.made
  have hnot : fd ∉ w.others := by
    intro hin
    have hopened := hw.sound.opened (.other fd) (List.contains_iff_mem.mpr hin)
    exact nomatch hopened.symm.trans hfree
  refine hw.sound.openFd (p := .other fd) (fun p hp => ?_) ?_ hfree rfl rfl
  · cases p with
    | other n =>
        have hn : n ≠ fd := fun h => hp (congrArg FdOwner.other h)
        simp [slot, hn]
    | own i | connect | conn i => rfl
  · rw [slot, ← Bool.not_eq_true, List.contains_iff_mem]
    exact hnot

theorem Inv.closeOther (hw : w.Inv) {fd : Nat} (hin : fd ∈ w.others) :
    Inv { w with
      kernel := w.kernel.closeFd fd
      others := w.others.filter fun n => n ≠ fd } := by
  refine hw.rest ?_ hw.made
  refine hw.sound.closeFd (p := .other fd) (fun p hp => ?_) ?_ ?_ ?_
  · cases p with
    | other n =>
        have hn : n ≠ fd := fun h => hp (congrArg FdOwner.other h)
        simp [slot, hn]
    | own i | connect | conn i => rfl
  · exact List.contains_iff_mem.mpr hin
  · simp [slot]
  · rfl

/-- Nothing but one of these channels changes. -/
theorem slot_own {own : Nat → OwnChannel} {i : Nat}
    (hown : ∀ j, j ≠ i → own j = w.own j) (k : Interest FdOwner) (m : Nat) :
    ∀ p, p ≠ .own i →
      { w with kernel := k, own := own, made := m }.slot p = w.slot p := by
  intro p hp
  cases p with
  | own j =>
      have hj : j ≠ i := fun h => hp (congrArg FdOwner.own h)
      simp only [slot, hown j hj]
  | other fd | connect | conn r => rfl

theorem slot_withOwn (w : Registration) (k : Interest FdOwner) (l fd : Nat)
    (ch : Channel) :
    (w.withOwn k l fd ch).slot (.own w.made) =
        { list := l, fd := fd, live := true, added := ch.state == .kAdded } ∧
      ∀ p, p ≠ .own w.made → (w.withOwn k l fd ch).slot p = w.slot p := by
  refine ⟨?_, slot_own (fun j hj => if_neg hj) _ _⟩
  simp only [withOwn, slot, if_true]

/-- The descriptor is new, so that its channel can be registered. -/
theorem Inv.enrol (hw : w.Inv) {l fd : Nat}
    (hfree : w.kernel.opened fd = false) {ch : Channel}
    (hch : ch = ({} : Channel).enableReading
      ((w.kernel.openFd fd).accepts l fd (.own w.made))) :
    (w.withOwn (follow (w.kernel.openFd fd) l fd (.own w.made) .kNew ch.state)
      l fd ch).Inv := by
  have hdead : (w.slot (.own w.made)).live = false :=
    hw.made _ (Nat.le_refl _)
  obtain ⟨hslot, hrest⟩ := slot_withOwn w (w.kernel.openFd fd) l fd {}
  -- first the number, then the channel
  have hopened : Sound (w.kernel.openFd fd)
      (w.withOwn (w.kernel.openFd fd) l fd {}).slot := by
    refine hw.sound.openFd (p := .own w.made) hrest hdead hfree ?_ ?_
    · rw [hslot]
    · rw [hslot]
      rfl
  have hlive : ((w.withOwn (w.kernel.openFd fd) l fd {}).slot
      (.own w.made)).live = true := by rw [hslot]
  have haccepts := hopened.accepts hlive
  rw [hslot] at haccepts
  have hadded : ch.state = .kAdded := by
    rw [hch, haccepts]
    rfl
  refine hw.rest ?_ fun i hi => ?_
  · obtain ⟨hslot', hrest'⟩ := slot_withOwn w
      (follow (w.kernel.openFd fd) l fd (.own w.made) .kNew ch.state) l fd ch
    rw [hadded] at hslot' hrest' ⊢
    have hadd := hopened.add (p := .own w.made) (fun p hp =>
      (hrest' p hp).trans (hrest p hp).symm) hlive (by rw [hslot'])
      (by rw [hslot']; rfl) (by rw [hslot', hslot]) (by rw [hslot', hslot])
      (by rw [hslot]; rfl)
    rw [hslot] at hadd
    exact hadd
  · rw [if_neg (by omega)]
    exact hw.made i (by omega)

/-- It is closed with its channel taken down before. -/
theorem Inv.retire (hw : w.Inv) {i : Nat} (hopen : (w.own i).fdOpen = true)
    {ch : Channel} (hch : ch.state = .kDeleted) :
    Inv { w with
      kernel := (follow w.kernel (w.own i).loop (w.own i).fd (.own i)
        (w.own i).channel.state ch.state).closeFd (w.own i).fd
      own := fun j =>
        if j = i then { w.own i with fdOpen := false, channel := ch }
        else w.own j } := by
  rw [hch, follow_closeFd]
  refine hw.rest ?_ fun j hj => ?_
  · refine hw.sound.closeFd (p := .own i)
      (slot_own (fun j hj => if_neg hj) _ _) ?_ ?_ ?_
    · exact hopen
    · simp only [slot, if_true]
    · simp only [slot, if_true, hch]
      rfl
  · split
    · rfl
    · exact hw.made j hj

/-! ## New connections -/

/-- A connection that is accepted. -/
theorem Inv.accept (hw : w.Inv) {fd : Nat}
    (hfree : w.kernel.opened fd = false) :
    Inv ({ w with
      kernel := w.kernel.openFd fd
      server := w.server.handleAccept fd }.setConn
        (.accepted w.server.accepted) {}) := by
  obtain ⟨haccepted, hfd, hplaces⟩ :=
    TcpServer.handleAccept_places w.server fd
  have hold : ∀ i : ConnRef, i ≠ .accepted w.server.accepted →
      (if i = .accepted w.server.accepted then {} else w.conns i :
        Connection) = w.conns i := fun i hi => if_neg hi
  have hdead := hw.unborn _ (Nat.le_refl _)
  refine ⟨?_, fun i => ?_, hw.dialling, hw.wf, fun id hid => ?_,
    fun sock hs => ?_, hw.made, fun sock hopen => ?_, fun h => ?_⟩
  · refine hw.sound.openFd (p := .conn (.accepted w.server.accepted))
      (fun p hp => ?_) (not_live_iff.mpr hdead) hfree ?_ ?_
    · cases p with
      | other n | own i | connect => rfl
      | conn i =>
          have hi : i ≠ .accepted w.server.accepted := fun h =>
            hp (congrArg FdOwner.conn h)
          have hconn := hold i hi
          cases i with
          | accepted id =>
              have hid : id ≠ w.server.accepted := fun h => hi (h ▸ rfl)
              obtain ⟨hfd', hloop'⟩ := hplaces id hid
              simp only [slot, Registration.setConn, hconn, loopOf, fdOf, hfd',
                hloop']
          | dialled sock =>
              simp only [slot, Registration.setConn, hconn, loopOf, fdOf]
    · exact hfd
    · simp only [slot, Registration.setConn, if_true]
      rfl
  · show (if i = .accepted w.server.accepted then {} else w.conns i :
      Connection).Enrolled
    split
    · exact enrolled_new
    · exact hw.enrolled i
  · have hlt : w.server.accepted + 1 ≤ id := haccepted ▸ hid
    refine (congrArg _ (hold _ fun h => ?_)).trans (hw.unborn id (by omega))
    cases h
    omega
  · exact hw.unused sock hs
  · exact hw.current sock hopen
  · exact hw.closing h

/-! ## The client -/

/-- The slot of a handshake. -/
theorem slot_connect {sock : Nat} (h : w.client.connectingFd = some sock) :
    w.slot .connect =
      { list := w.clientLoop
        fd := w.sockFd sock
        live := true
        added := w.client.connectChannel.any fun ch =>
          ch.state == .kAdded } := by
  rw [slot, h]

theorem slot_idle (h : w.client.connectingFd = none) :
    w.slot .connect = {} := by
  rw [slot, h]

/-- Which number the next socket gets is nobody's business yet. -/
theorem Inv.withSocket (hw : w.Inv) (fd : Nat) : (w.withSocket fd).Inv := by
  refine ⟨?_, hw.enrolled, hw.dialling, hw.wf, hw.unborn, hw.unused, hw.made,
    hw.current, hw.closing⟩
  have hnumber : ∀ sock, sock ≠ w.client.sockets →
      (w.withSocket fd).sockFd sock = w.sockFd sock := fun _ h => if_neg h
  refine hw.sound.congr fun p => ?_
  cases p with
  | other n | own i => exact .inl rfl
  | connect =>
      refine .inl ?_
      cases hfd : w.client.connectingFd with
      | none =>
          have hnow : (w.withSocket fd).slot .connect = {} := slot_idle hfd
          exact hnow.trans (slot_idle hfd).symm
      | some sock =>
          have hlt := hw.wf sock hfd
          have hnow : (w.withSocket fd).slot .connect =
              { list := w.clientLoop, fd := (w.withSocket fd).sockFd sock
                live := true
                added := w.client.connectChannel.any fun ch =>
                  ch.state == .kAdded } := slot_connect hfd
          rw [hnow, slot_connect hfd, hnumber sock (by omega)]
  | conn r =>
      cases r with
      | accepted id => exact .inl rfl
      | dialled sock =>
          by_cases hs : sock = w.client.sockets
          · have hdead := hw.unused sock fun hu => by
              have := hu.1
              omega
            refine .inr ⟨not_live_iff.mpr hdead, not_live_iff.mpr hdead, ?_⟩
            show ((w.conns (.dialled sock)).channel.state == .kAdded) = false
            rw [((hw.enrolled _).closed hdead).1]
            rfl
          · refine .inl ?_
            simp only [slot, loopOf, fdOf, hnumber sock hs]
            rfl

/-- The client is replaced, and nobody else. -/
theorem slot_client (w : Registration) (k : Interest FdOwner)
    (c' : TcpClient) : ∀ p, p ≠ .connect →
      { w with kernel := k, client := c' }.slot p = w.slot p := by
  intro p hp
  cases p with
  | connect => exact absurd rfl hp
  | other n | own i => rfl
  | conn r =>
      cases r with
      | accepted id | dialled sock => rfl

theorem asked_quiet {ask : ClientAsk} (h : TcpClient.Quiet ask) :
    w.asked ask = w := by
  cases ask with
  | nothing | runAfter ms => rfl
  | established sock => exact absurd rfl (h sock)

/-- The fields of a client whose sockets are these. -/
theorem of_socketsOf {c : TcpClient} {s : TcpClient.Sockets}
    (h : c.socketsOf = s) : c.sockets = s.opened ∧ c.closedFds = s.closed ∧
      c.connectingFd = s.dialling ∧ c.connectChannel = s.channel := by
  subst h
  exact ⟨rfl, rfl, rfl, rfl⟩

theorem clientCalls_same {c' : TcpClient} {closed : List Nat}
    (hsockets : c'.sockets = w.client.sockets)
    (hclosed : c'.closedFds = w.client.closedFds ++ closed) :
    w.clientCalls c' = w.closeSockets (w.connectCalls c' w.kernel) closed := by
  rw [clientCalls, hsockets, hclosed, List.drop_left,
    if_neg (Nat.lt_irrefl _)]

theorem clientCalls_opened {c' : TcpClient} {closed : List Nat}
    (hsockets : c'.sockets = w.client.sockets + 1)
    (hclosed : c'.closedFds = w.client.closedFds ++ closed) :
    w.clientCalls c' = w.closeSockets (w.connectCalls c'
      (w.kernel.openFd (w.sockFd w.client.sockets))) closed := by
  rw [clientCalls, hsockets, hclosed, List.drop_left,
    if_pos (Nat.lt_succ_self _)]

theorem connectCalls_same {c' : TcpClient} (k : Interest FdOwner)
    (h : c'.connectChannel = w.client.connectChannel) :
    w.connectCalls c' k = k := by
  rw [connectCalls, h]
  cases w.client.connectChannel <;> rfl

theorem connectCalls_begin {c' : TcpClient} {ch : Channel} {sock : Nat}
    (k : Interest FdOwner) (hnone : w.client.connectChannel = none)
    (hch : c'.connectChannel = some ch) (hadded : ch.state = .kAdded)
    (hfd : c'.connectingFd = some sock) :
    w.connectCalls c' k = k.add w.clientLoop (w.sockFd sock) .connect := by
  rw [connectCalls, hnone, hch, hfd]
  dsimp only
  rw [hadded]
  rfl

theorem connectCalls_end {c' : TcpClient} {ch : Channel} {sock : Nat}
    (k : Interest FdOwner) (hch : w.client.connectChannel = some ch)
    (hadded : ch.state = .kAdded) (hfd : w.client.connectingFd = some sock)
    (hnone : c'.connectChannel = none) :
    w.connectCalls c' k = k.del w.clientLoop (w.sockFd sock) := by
  rw [connectCalls, hnone, hch, hfd]
  dsimp only
  rw [hadded]
  rfl

variable {c' : TcpClient} {ch : Channel} {sock : Nat}

theorem slot_asked (w : Registration) (sock : Nat) : ∀ p,
    p ≠ .conn (.dialled sock) →
      (w.asked (.established sock)).slot p = w.slot p :=
  slot_setConn w (.dialled sock) {} w.kernel

theorem slot_established (w : Registration) (sock : Nat) :
    (w.asked (.established sock)).slot (.conn (.dialled sock)) =
      { list := w.clientLoop
        fd := w.sockFd sock
        live := true
        added := false } := by
  have hnow : (w.asked (.established sock)).conns (.dialled sock) = {} :=
    if_pos rfl
  rw [slot, hnow]
  rfl

/-- A call that leaves the sockets alone, or opens one and closes it again. -/
theorem Inv.dial_nothing (hw : w.Inv)
    (hkernel : (w.clientCalled c').kernel = w.kernel)
    (hfd : c'.connectingFd = w.client.connectingFd)
    (hch : c'.connectChannel = w.client.connectChannel) :
    Sound (w.clientCalled c').kernel (w.clientCalled c').slot := by
  rw [hkernel]
  refine hw.sound.congr fun p => .inl ?_
  by_cases hp : p = .connect
  · rw [hp]
    cases hdialling : w.client.connectingFd with
    | none =>
        rw [slot_idle hdialling]
        exact slot_idle (hfd.trans hdialling)
    | some sock =>
        rw [slot_connect hdialling, ← hch]
        exact slot_connect (hfd.trans hdialling)
  · exact slot_client w _ c' p hp

/-- A handshake begins: a socket is opened, and its channel is registered. -/
theorem Inv.dial_begun (hw : w.Inv)
    (hfree : w.kernel.opened (w.sockFd w.client.sockets) = false)
    (hidle : w.client.connectingFd = none)
    (hfd : c'.connectingFd = some w.client.sockets)
    (hch : c'.connectChannel = some ch) (hadded : ch.state = .kAdded) :
    Sound ((w.kernel.openFd (w.sockFd w.client.sockets)).add w.clientLoop
        (w.sockFd w.client.sockets) .connect) (w.clientCalled c').slot := by
  have hslot₁ := slot_connect
    (w := { w with client := { c' with connectChannel := none } }) hfd
  have hrest₁ := slot_client w w.kernel { c' with connectChannel := none }
  have hopened := hw.sound.openFd (p := .connect) hrest₁
    (by rw [slot_idle hidle]) hfree (by rw [hslot₁]) (by rw [hslot₁]; rfl)
  have hslot : (w.clientCalled c').slot .connect =
      { list := w.clientLoop
        fd := w.sockFd w.client.sockets
        live := true
        added := true } := by
    rw [slot_connect hfd]
    show Slot.mk _ _ _ (c'.connectChannel.any _) = _
    rw [hch]
    show Slot.mk _ _ _ (ch.state == .kAdded) = _
    rw [hadded]
    rfl
  have hadd : Sound _ (w.clientCalled c').slot := hopened.add (p := .connect)
    (fun p hp => (slot_client w _ c' p hp).trans (hrest₁ p hp).symm)
    (by rw [hslot₁]) (by rw [hslot]) (by rw [hslot]) (by rw [hslot, hslot₁])
    (by rw [hslot, hslot₁]) (by rw [hslot₁]; rfl)
  rw [hslot₁] at hadd
  exact hadd

/-- A handshake that is over at once: the socket goes to a connection. -/
theorem Inv.dial_immediate (hw : w.Inv)
    (hfree : w.kernel.opened (w.sockFd w.client.sockets) = false)
    (hidle : w.client.connectingFd = none)
    (hfd : c'.connectingFd = none) :
    Sound (w.kernel.openFd (w.sockFd w.client.sockets))
      ((w.clientCalled c').asked (.established w.client.sockets)).slot := by
  have hunused := hw.unused w.client.sockets fun hu =>
    absurd hu.1 (Nat.lt_irrefl _)
  have hslot : ((w.clientCalled c').asked
      (.established w.client.sockets)).slot
        (.conn (.dialled w.client.sockets)) = _ := slot_established _ _
  refine hw.sound.openFd (p := .conn (.dialled w.client.sockets))
    (fun p hp => ?_) (not_live_iff.mpr hunused) hfree ?_ ?_
  · rw [slot_asked _ _ p hp]
    by_cases hconnect : p = .connect
    · rw [hconnect, slot_idle hidle]
      exact slot_idle hfd
    · exact slot_client w _ c' p hconnect
  · rw [hslot]
    rfl
  · rw [hslot]

/-- A handshake fails: its channel is taken down and its socket is closed. -/
theorem Inv.dial_failed (hw : w.Inv)
    (hdialling : w.client.connectingFd = some sock)
    (hfd : c'.connectingFd = none) :
    Sound (w.kernel.closeFd (w.sockFd sock)) (w.clientCalled c').slot := by
  have hslot := slot_connect hdialling
  have hslot' : (w.clientCalled c').slot .connect = {} := slot_idle hfd
  have hclosed : Sound _ (w.clientCalled c').slot :=
    hw.sound.closeFd (p := .connect) (slot_client w _ c')
    (by rw [hslot]) (by rw [hslot']) (by rw [hslot'])
  rw [hslot] at hclosed
  exact hclosed

/-- A handshake succeeds: its channel is taken down, and then its socket goes
to a connection. -/
theorem Inv.dial_connected (hw : w.Inv)
    (hdialling : w.client.connectingFd = some sock)
    (hfd : c'.connectingFd = none) :
    Sound (w.kernel.del w.clientLoop (w.sockFd sock))
      ((w.clientCalled c').asked (.established sock)).slot := by
  have hunused := hw.unused sock fun hu => hu.2 hdialling
  have hslot := slot_connect hdialling
  have hslot₁ := slot_connect
    (w := { w with client := { w.client with connectChannel := none } })
    hdialling
  have hrest₁ := slot_client w w.kernel
    { w.client with connectChannel := none }
  have hdel := hw.sound.del (p := .connect) hrest₁ (by rw [hslot])
    (by rw [hslot₁]; rfl) (by rw [hslot₁, hslot])
  rw [hslot] at hdel
  have hslot' : (w.clientCalled c').slot .connect = {} := slot_idle hfd
  have hnew : ((w.clientCalled c').asked (.established sock)).slot
      (.conn (.dialled sock)) = _ := slot_established _ _
  refine hdel.handOver (p := .connect) (q := .conn (.dialled sock))
    (fun p hp hq => ?_) (by rw [hslot₁]) (by rw [hslot₁]; rfl) ?_ ?_ ⟨?_, ?_⟩ ?_
  · rw [slot_asked _ _ p hq, hrest₁ p hp]
    exact slot_client w _ c' p hp
  · rw [hrest₁ (.conn (.dialled sock)) nofun]
    exact not_live_iff.mpr hunused
  · rw [slot_asked _ _ .connect nofun, hslot']
  · rw [slot_asked _ _ .connect nofun, hslot']
  · rw [hnew]
  · rw [hnew, hslot₁]
    rfl

/-- What the client asks of the kernel. -/
theorem Inv.client_sound (hw : w.Inv) {ask : ClientAsk}
    (hgoes : w.client.Goes (c', ask))
    (hfree : w.client.sockets = c'.sockets ∨
      w.kernel.opened (w.sockFd w.client.sockets) = false) :
    Sound ((w.clientCalled c').asked ask).kernel
      ((w.clientCalled c').asked ask).slot := by
  have hfree' : c'.sockets = w.client.sockets + 1 →
      w.kernel.opened (w.sockFd w.client.sockets) = false := fun h =>
    hfree.resolve_left (by omega)
  have hdials := hgoes.dials
  generalize hs : (c', ask).1.socketsOf = s' at hdials
  have hof := of_socketsOf hs
  cases hdials with
  | quiet _ hquiet =>
      obtain ⟨(hsockets : c'.sockets = w.client.sockets),
        (hclosed : c'.closedFds = w.client.closedFds),
        (hfd : c'.connectingFd = w.client.connectingFd),
        (hch : c'.connectChannel = w.client.connectChannel)⟩ := hof
      rw [asked_quiet hquiet]
      refine hw.dial_nothing ?_ hfd hch
      show w.clientCalls c' = _
      rw [clientCalls_same hsockets (hclosed.trans (List.append_nil _).symm),
        connectCalls_same _ hch]
      rfl
  | refused _ hidle hnone hquiet =>
      obtain ⟨(hsockets : c'.sockets = w.client.sockets + 1),
        (hclosed : c'.closedFds = w.client.closedFds ++ [w.client.sockets]),
        (hfd : c'.connectingFd = w.client.connectingFd),
        (hch : c'.connectChannel = w.client.connectChannel)⟩ := hof
      rw [asked_quiet hquiet]
      refine hw.dial_nothing ?_ hfd hch
      show w.clientCalls c' = _
      rw [clientCalls_opened hsockets hclosed, connectCalls_same _ hch]
      exact hw.sound.closeFd_openFd (hfree' hsockets)
  | dialled ch hidle hnone hadded =>
      obtain ⟨(hsockets : c'.sockets = w.client.sockets + 1),
        (hclosed : c'.closedFds = w.client.closedFds),
        (hfd : c'.connectingFd = some w.client.sockets),
        (hch : c'.connectChannel = some ch)⟩ := hof
      show Sound (w.clientCalls c') (w.clientCalled c').slot
      rw [clientCalls_opened hsockets (hclosed.trans (List.append_nil _).symm),
        connectCalls_begin _ hnone hch hadded hfd]
      exact hw.dial_begun (hfree' hsockets) hidle hfd hch hadded
  | immediate hidle hnone =>
      obtain ⟨(hsockets : c'.sockets = w.client.sockets + 1),
        (hclosed : c'.closedFds = w.client.closedFds),
        (hfd : c'.connectingFd = w.client.connectingFd),
        (hch : c'.connectChannel = w.client.connectChannel)⟩ := hof
      show Sound (w.clientCalls c') _
      rw [clientCalls_opened hsockets (hclosed.trans (List.append_nil _).symm),
        connectCalls_same _ hch]
      exact hw.dial_immediate (hfree' hsockets) hidle (hfd.trans hidle)
  | failed sock _ hdialling hquiet =>
      obtain ⟨(hsockets : c'.sockets = w.client.sockets),
        (hclosed : c'.closedFds = w.client.closedFds ++ [sock]),
        (hfd : c'.connectingFd = none), (hch : c'.connectChannel = none)⟩ :=
        hof
      obtain ⟨ch, hbefore, hadded⟩ := hw.dialling.channel hdialling
      rw [asked_quiet hquiet]
      show Sound (w.clientCalls c') (w.clientCalled c').slot
      rw [clientCalls_same hsockets hclosed,
        connectCalls_end _ hbefore hadded hdialling hch]
      show Sound ((w.kernel.del _ _).closeFd (w.sockFd sock)) _
      rw [Interest.closeFd_del]
      exact hw.dial_failed hdialling hfd
  | connected sock hdialling =>
      obtain ⟨(hsockets : c'.sockets = w.client.sockets),
        (hclosed : c'.closedFds = w.client.closedFds),
        (hfd : c'.connectingFd = none), (hch : c'.connectChannel = none)⟩ :=
        hof
      obtain ⟨ch, hbefore, hadded⟩ := hw.dialling.channel hdialling
      show Sound (w.clientCalls c') _
      rw [clientCalls_same hsockets (hclosed.trans (List.append_nil _).symm),
        connectCalls_end _ hbefore hadded hdialling hch]
      exact hw.dial_connected hdialling hfd

/-- The one connection that may be new. -/
theorem asked_conns (w : Registration) (ask : ClientAsk) (r : ConnRef) :
    (w.asked ask).conns r = w.conns r ∨ ∃ sock, ask = .established sock ∧
      r = .dialled sock ∧ (w.asked ask).conns r = {} := by
  cases ask with
  | nothing | runAfter ms => exact .inl rfl
  | established sock =>
      by_cases hr : r = .dialled sock
      · exact .inr ⟨sock, rfl, hr, if_pos hr⟩
      · exact .inl (if_neg hr)

theorem asked_rest (w : Registration) (ask : ClientAsk) :
    (w.asked ask).server = w.server ∧ (w.asked ask).client = w.client ∧
      (w.asked ask).own = w.own ∧ (w.asked ask).made = w.made ∧
      (w.asked ask).closing = w.closing := by
  cases ask with
  | nothing | runAfter ms | established sock => exact ⟨rfl, rfl, rfl, rfl, rfl⟩

/-- A call of the client's. As long as one of its connections is open, or
being closed, it is connected and leaves everything alone. -/
theorem Inv.clientCalled (hw : w.Inv) {ask : ClientAsk}
    (hgoes : w.client.Goes (c', ask)) (hhands : w.client.Hands (c', ask))
    (hstays : w.client.Stays (c', ask) ∨ w.closing = false ∧
      ∀ sock, (w.conns (.dialled sock)).state = .kDisconnected)
    (hfree : w.client.sockets = c'.sockets ∨
      w.kernel.opened (w.sockFd w.client.sockets) = false) :
    ((w.clientCalled c').asked ask).Inv := by
  obtain ⟨hserver, hclient, hown, hmade, hclosing⟩ :=
    asked_rest (w.clientCalled c') ask
  have hconns := asked_conns (w.clientCalled c') ask
  have hnew : ∀ sock, ask = .established sock →
      c'.Used sock ∧ ¬ w.client.Used sock := fun sock h => hhands.fresh h
  refine ⟨hw.client_sound hgoes hfree, fun r => ?_, ?_, ?_, fun id hid => ?_,
    fun sock hs => ?_, fun i hi => ?_, fun sock hopen => ?_, fun hc => ?_⟩
  · rcases hconns r with h | ⟨sock, -, -, h⟩
    · rw [h]
      exact hw.enrolled r
    · rw [h]
      exact enrolled_new
  · rw [hclient]
    exact hgoes.dialling
  · rw [hclient]
    exact hhands.wf
  · rw [hserver] at hid
    rcases hconns (.accepted id) with h | ⟨sock, -, h, -⟩
    · rw [h]
      exact hw.unborn id hid
    · cases h
  · rw [hclient] at hs
    rcases hconns (.dialled sock) with h | ⟨k, hask, h, -⟩
    · rw [h]
      exact hw.unused sock fun hu => hs (hhands.used hu)
    · cases h
      exact absurd (hnew sock hask).1 hs
  · rw [hown]
    rw [hmade] at hi
    exact hw.made i hi
  · rw [hclient]
    rcases hconns (.dialled sock) with h | ⟨k, hask, h, -⟩
    · rw [h] at hopen
      have hstays' := hstays.resolve_right fun hno => hopen (hno.2 sock)
      obtain ⟨hstate, hconnection⟩ := hw.current sock hopen
      obtain ⟨hstate', hconnection', -⟩ := hstays' hstate
      exact ⟨hstate', hconnection'.trans hconnection⟩
    · cases h
      exact hgoes.handed sock hask
  · rw [hclosing] at hc
    have hstays' := hstays.resolve_right fun hno => nomatch hc.symm.trans hno.1
    obtain ⟨hstate, hnone⟩ := hw.closing hc
    obtain ⟨hstate', -, hquiet⟩ := hstays' hstate
    rw [hclient]
    refine ⟨hstate', fun sock => ?_⟩
    rw [asked_quiet hquiet]
    exact hnone sock

/-- No number is needed for a call that opens no socket. -/
theorem dialOk_same (fd : Nat) (h : c'.sockets = w.client.sockets) :
    w.dialOk fd c' = true :=
  (Bool.or_eq_true _ _).mpr (.inl (beq_iff_eq.mpr h.symm))

theorem Inv.commitClient (hw : w.Inv) {ask : ClientAsk} {fd : Nat}
    (hgoes : w.client.Goes (c', ask)) (hhands : w.client.Hands (c', ask))
    (hstays : w.client.Stays (c', ask) ∨ w.closing = false ∧
      ∀ sock, (w.conns (.dialled sock)).state = .kDisconnected)
    (hfree : w.dialOk fd c' = true) : (w.commitClient fd c' ask).Inv := by
  refine (hw.withSocket fd).clientCalled hgoes hhands hstays ?_
  have hfd : (w.withSocket fd).sockFd w.client.sockets = fd := if_pos rfl
  show _ ∨ w.kernel.opened ((w.withSocket fd).sockFd w.client.sockets) = false
  rw [hfd]
  rcases (Bool.or_eq_true _ _).mp hfree with h | h
  · exact .inl (beq_iff_eq.mp h)
  · exact .inr (by simpa using h)

end

/-! ## Every step -/

theorem Inv.step {w w' : Registration} {lb : Label} (hw : w.Inv)
    (hok : w.StartOk lb) (h : w.step lb = some w') : w'.Inv := by
  cases lb with
  | openOther fd =>
      obtain ⟨hfree, h⟩ := Option.ite_none_right_eq_some.mp h
      cases h
      exact hw.openOther (by simpa using hfree)
  | closeOther fd =>
      obtain ⟨hin, h⟩ := Option.ite_none_right_eq_some.mp h
      cases h
      exact hw.closeOther (List.contains_iff_mem.mp hin)
  | enrol l fd =>
      obtain ⟨hfree, h⟩ := Option.ite_none_right_eq_some.mp h
      cases h
      exact hw.enrol (by simpa using hfree) rfl
  | retire i =>
      obtain ⟨hopen, h⟩ := Option.ite_none_right_eq_some.mp h
      cases h
      exact hw.retire hopen rfl
  | accept fd =>
      obtain ⟨hcan, h⟩ := Option.ite_none_right_eq_some.mp h
      have hfree := ((Bool.and_eq_true _ _).mp hcan).2
      have hclosed : w.kernel.opened fd = false := by simpa using hfree
      have haccept := hw.accept hclosed
      split at h
      · cases h
        exact haccept.setStarting _ _
      · cases h
        exact haccept
  | functor l =>
      simp only [Registration.step] at h
      split at h
      · cases h
      · next f fs _ =>
          have hrun : Inv { w with
              server := (w.server.setQueue l fs).runFunctor f } :=
            hw.server ((TcpServer.samePlaces_queue l fs).trans
              (TcpServer.samePlaces_functor f))
          split at h
          · split at h
            · cases h
              exact hrun.setStarting _ _
            · cases h
              exact hrun
            · cases h
              exact hrun
          · cases h
  | start l =>
      simp only [Registration.step] at h
      split at h
      · cases h
      · next r rs hstarting =>
          split at h
          · cases h
          · cases h
            refine (hw.setStarting l rs).commit
              ((Connection.Goes.refl (hw.lookUp r)).start fun hclosed => ?_)
            exact hok r (by rw [hstarting]; rfl) hclosed
  | conn r lb =>
      obtain ⟨hcan, h⟩ := Option.ite_none_right_eq_some.mp h
      obtain ⟨c', hc', rfl⟩ := Option.map_eq_some_iff.mp h
      refine hw.commit (Connection.goes_step (hw.lookUp r) (fun hl => ?_) hc')
      rw [hl] at hcan
      cases hcan
  | setCallbacks r message high complete mark =>
      cases h
      exact hw.setConn rfl rfl rfl
  | destroy r =>
      obtain ⟨-, h⟩ := Option.ite_none_left_eq_some.mp h
      cases h
      exact hw.destroyed r
  | connect d fd =>
      obtain ⟨hfree, h⟩ := Option.ite_none_right_eq_some.mp h
      cases h
      exact hw.commitClient (TcpClient.goes_connectInLoop hw.dialling d)
        (TcpClient.hands_connectInLoop hw.wf d)
        (.inl (TcpClient.stays_connectInLoop _ d)) hfree
  | retry d fd =>
      obtain ⟨hcan, h⟩ := Option.ite_none_right_eq_some.mp h
      cases h
      exact hw.commitClient (TcpClient.goes_retry hw.dialling d)
        (TcpClient.hands_retry hw.wf d) (.inl (TcpClient.stays_retry _ d))
        ((Bool.and_eq_true _ _).mp hcan).2
  | connectWritable err =>
      obtain ⟨hcan, h⟩ := Option.ite_none_right_eq_some.mp h
      cases h
      have hchannel := ((Bool.and_eq_true _ _).mp hcan).2
      refine hw.commitClient
        (TcpClient.goes_handleConnectWritable hw.dialling err)
        (TcpClient.hands_handleConnectWritable hw.wf err)
        (.inl fun hstate => ?_) ?_
      · have hidle := hw.dialling.idle (by rw [hstate]; nofun)
        rw [hidle.2] at hchannel
        cases hchannel
      · exact dialOk_same _ (TcpClient.handleConnectWritable_sockets _ err)
  | disconnect =>
      simp only [Registration.step] at h
      have hdown : (w.commitClient 0 w.client.disconnectInLoop.1
          .nothing).Inv :=
        hw.commitClient (TcpClient.goes_disconnectInLoop hw.dialling)
          (TcpClient.hands_disconnectInLoop hw.wf)
          (.inl (TcpClient.stays_disconnectInLoop _))
          (dialOk_same _ (TcpClient.disconnectInLoop_sockets _).1)
      split at h
      · cases h
        exact hdown
      · cases h
        exact hdown.commit (Connection.Goes.refl (hdown.lookUp _)).close
  | onConnectionClosed =>
      obtain ⟨hclosing, h⟩ := Option.ite_none_right_eq_some.mp h
      cases h
      obtain ⟨hstate, hnone⟩ := hw.closing hclosing
      have htold := hw.told hstate hnone false
      refine htold.commitClient
        (TcpClient.goes_onConnectionClosed htold.dialling ?_)
        (TcpClient.hands_onConnectionClosed htold.wf) (.inr ⟨rfl, hnone⟩) ?_
      · show w.client.state ≠ .kConnecting
        rw [hstate]
        nofun
      · exact dialOk_same _ (TcpClient.onConnectionClosed_sockets _)

/-- As long as nobody has opened the number of a connection that was closed
before its `start()`, what is registered is registered for its owner. -/
theorem registered_sole {n cl : Nat} {cb : Bool} {ls : List Label}
    {w : Registration} (hok : Machine.Meets step StartOk (init n cl cb) ls)
    (hrun : Machine.run step (init n cl cb) ls = some w) : w.Registered := by
  have hw : w.Inv := Machine.run_preserves_of_meets
    (fun hw hok h => Inv.step hw hok h) (inv_init n cl cb) hok hrun
  exact hw.registered

/-- A connection that is closed in its callback and started behind it, one
that sends there, and a client that is disconnected there. Two of the numbers
are opened again, but not before the start. -/
def closedInCallback : List Label :=
  [.enrol 0 3, .enrol 1 4, .accept 7, .functor 1,
    .conn (.accepted 0) (.op .close), .start 1, .accept 7, .functor 1,
    .conn (.accepted 1) (.op (.send [1, 2] [.accepted 1, .stop .eagain])),
    .start 1, .connect .inProgress 8, .connectWritable false, .disconnect,
    .onConnectionClosed, .start 0, .openOther 8]

theorem registered_sole_callback :
    ∃ w, Machine.run step (init 1 0 true) closedInCallback = some w ∧
      (w.conns (.accepted 0)).state = .kDisconnected ∧
      w.kernel.entry 1 7 = some (.conn (.accepted 1)) ∧
      w.kernel.entry 0 8 = none ∧ w.Registered := by
  have hany : (Machine.run step (init 1 0 true) closedInCallback).any
      (fun w => (w.conns (.accepted 0)).state == .kDisconnected &&
        w.kernel.entry 1 7 == some (.conn (.accepted 1)) &&
        w.kernel.entry 0 8 == none) = true := by decide +kernel
  obtain ⟨w, hrun, hw⟩ := (Option.any_eq_true _ _).mp hany
  simp only [Bool.and_eq_true, beq_iff_eq] at hw
  exact ⟨w, hrun, hw.1.1, hw.1.2, hw.2,
    registered_sole (by decide +kernel) hrun⟩

end GameFrame.Registration
