/-!
# `Channel`, one descriptor's place in an `EventLoop`

`src/channel.h`, `src/channel.cpp`, and the two functions of `EventLoop` that
register a channel. A channel knows which events its descriptor is registered
for and whether it is registered at all, and hands a reported mask on to the
callbacks of its owner, bit by bit and in a fixed order. The callbacks are
parameters here, over any state they act on; what a `Connection` puts in their
place is in its own module.

`epoll_ctl` succeeds on an open descriptor and fails on a closed one, which is
all that is asked of it.
-/

namespace GameFrame

/-! The bits of `sys/epoll.h` that are looked at. -/

def EPOLLIN : UInt32 := 0x001
def EPOLLOUT : UInt32 := 0x004
def EPOLLERR : UInt32 := 0x008
def EPOLLHUP : UInt32 := 0x010
def EPOLLRDHUP : UInt32 := 0x2000

/-- Whether `revents` and `bits` have a bit in common. -/
def hasBits (revents bits : UInt32) : Bool := revents &&& bits != 0

/-- `Channel::State`. -/
inductive ChannelState where
  | kNew
  | kAdded
  | kDeleted
  deriving DecidableEq, Repr

/-- `events_`, `state_` and `tied_`. -/
structure Channel where
  events : UInt32 := 0
  state : ChannelState := .kNew
  tied : Bool := false
  deriving DecidableEq, Repr

namespace Channel

def kReadEvent : UInt32 := EPOLLIN ||| EPOLLRDHUP

def isWriting (ch : Channel) : Bool := hasBits ch.events EPOLLOUT

/-- `EventLoop::update_channel`, for a descriptor that is open or not. -/
def update (ch : Channel) (fdOpen : Bool) : Channel :=
  match ch.state with
  | .kNew | .kDeleted => if fdOpen then { ch with state := .kAdded } else ch
  | .kAdded => ch

/-- `EventLoop::remove_channel`. -/
def remove (ch : Channel) : Channel := { ch with state := .kDeleted }

def enableReading (ch : Channel) (fdOpen : Bool) : Channel :=
  { ch with events := ch.events ||| kReadEvent }.update fdOpen

def enableWriting (ch : Channel) (fdOpen : Bool) : Channel :=
  { ch with events := ch.events ||| EPOLLOUT }.update fdOpen

def disableWriting (ch : Channel) (fdOpen : Bool) : Channel :=
  { ch with events := ch.events &&& ~~~EPOLLOUT }.update fdOpen

def disableAll (ch : Channel) (fdOpen : Bool) : Channel :=
  { ch with events := 0 }.update fdOpen

/-- A hang-up with nothing left to read. -/
def pureHangUp (revents : UInt32) : Bool :=
  hasBits revents EPOLLHUP && !hasBits revents EPOLLIN

section

variable {σ : Type _}

/-- A callback that is called if some bit is set. -/
def when (bit : Bool) (cb : σ → Option σ) (s : σ) : Option σ :=
  if bit then cb s else some s

/-- `handle_event_with_guard(revents)`, around the four callbacks. -/
def handleEventWithGuard (closeCb errorCb readCb writeCb : σ → Option σ)
    (revents : UInt32) (s : σ) : Option σ :=
  if pureHangUp revents then closeCb s
  else
    (when (hasBits revents EPOLLERR) errorCb s).bind fun s =>
    (when (hasBits revents (EPOLLIN ||| EPOLLRDHUP)) readCb s).bind fun s =>
    when (hasBits revents EPOLLOUT) writeCb s

/-- `handle_event(revents)`; `alive` is whether the tied object is. -/
def handleEvent (tied alive : Bool)
    (closeCb errorCb readCb writeCb : σ → Option σ) (revents : UInt32)
    (s : σ) : Option σ :=
  if tied && !alive then some s
  else handleEventWithGuard closeCb errorCb readCb writeCb revents s

theorem when_eq_some {bit : Bool} {cb : σ → Option σ} {s s' : σ}
    (h : when bit cb s = some s') :
    bit = true ∧ cb s = some s' ∨ bit = false ∧ s' = s := by
  cases bit with
  | true => exact .inl ⟨rfl, h⟩
  | false =>
      cases h
      exact .inr ⟨rfl, rfl⟩

/-- What every callback preserves, a dispatch preserves. -/
theorem handleEvent_preserves {P : σ → Prop}
    {closeCb errorCb readCb writeCb : σ → Option σ}
    (hclose : ∀ {s s'}, P s → closeCb s = some s' → P s')
    (herror : ∀ {s s'}, P s → errorCb s = some s' → P s')
    (hread : ∀ {s s'}, P s → readCb s = some s' → P s')
    (hwrite : ∀ {s s'}, P s → writeCb s = some s' → P s')
    {tied alive : Bool} {revents : UInt32} {s s' : σ} (hs : P s)
    (h : handleEvent tied alive closeCb errorCb readCb writeCb revents s =
      some s') : P s' := by
  have hwhen : ∀ {bit : Bool} {cb : σ → Option σ} {s s' : σ},
      (∀ {s s'}, P s → cb s = some s' → P s') → P s →
      when bit cb s = some s' → P s' := by
    intro bit cb s s' hcb hs h
    rcases when_eq_some h with ⟨-, h⟩ | ⟨-, rfl⟩
    · exact hcb hs h
    · exact hs
  rw [handleEvent] at h
  split at h
  · cases h
    exact hs
  · rw [handleEventWithGuard] at h
    split at h
    · exact hclose hs h
    · obtain ⟨s₀, h₀, h⟩ := Option.bind_eq_some_iff.mp h
      obtain ⟨s₁, h₁, h⟩ := Option.bind_eq_some_iff.mp h
      exact hwhen hwrite (hwhen hread (hwhen herror hs h₀) h₁) h

end

end Channel

end GameFrame
