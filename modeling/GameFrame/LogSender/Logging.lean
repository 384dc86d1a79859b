import GameFrame.LogSender.LogSender

/-!
# `LOG_*`, the statements of a program that logs

`log_sender/logging.h`, and `LogSender::set_global`. A statement is formatted on
the thread it is on and pushed into the sender that is registered. Nothing is
done if its level was switched off when the program was compiled, or if no
sender is registered.

What `vsnprintf` makes of the format and its arguments is the body here. Time is
not part of the text, `log_server` adds it.

A thread looks which sender there is, then formats, then pushes, and
`set_global` may be called in between. So a statement is two steps up to the
critical section of its push.
-/

namespace GameFrame

inductive LogLevel where
  | DEBUG
  | INFO
  | WARN
  | ERROR
  deriving DecidableEq, Repr

def LogLevel.toNat : LogLevel → Nat
  | .DEBUG => 0
  | .INFO => 1
  | .WARN => 2
  | .ERROR => 3

/-- The bytes of a string literal. -/
def literal (s : String) : List UInt8 :=
  s.toList.map fun c => UInt8.ofNat c.toNat

/-- `level_str(level)`. -/
def levelStr : LogLevel → List UInt8
  | .DEBUG => literal "DEBUG"
  | .INFO => literal "INFO"
  | .WARN => literal "WARN"
  | .ERROR => literal "ERROR"

/-- The loop of `basename_of`: `base` so far, and what `p` has before it. -/
def basenameLoop : List UInt8 → List UInt8 → List UInt8
  | base, [] => base
  | base, c :: p => basenameLoop (if c = 47 then p else base) p

/-- `basename_of(path)`. -/
def basenameOf (path : List UInt8) : List UInt8 := basenameLoop path path

/-- `format_log(level, file, line, ...)`, with the body formatted. -/
def formatLog (level : LogLevel) (file : List UInt8) (line : Int)
    (body : List UInt8) : List UInt8 :=
  levelStr level ++ literal " " ++ basenameOf file ++ literal ":" ++
    literal (toString line) ++ literal " | " ++ body

/-- A statement `LOG_*(...)` of the program. -/
structure LogStatement where
  level : LogLevel
  file : List UInt8
  line : Int
  body : List UInt8
  deriving DecidableEq, Repr

def LogStatement.text (st : LogStatement) : List UInt8 :=
  formatLog st.level st.file st.line st.body

/-- A program with one `LogSender`, and threads that log. -/
structure LogProgram (ι : Type _) where
  sender : LogSender ι
  /-- `LOG_COMPILE_LEVEL` -/
  compileLevel : Nat := 0
  /-- whether `global()` is the sender, or `nullptr` -/
  registered : Bool := false
  /-- the statement a thread is in, if it has looked and has not pushed yet -/
  inside : ι → Option LogStatement := fun _ => none
  /-- the statements whose text was stored, in that order -/
  stored : List LogStatement := []

namespace LogProgram

variable {ι : Type _}

def new (opts : Options) (compileLevel : Nat) : LogProgram ι where
  sender := .new opts
  compileLevel := compileLevel

inductive Label (ι : Type _) where
  /-- `p` comes to a statement, and looks which sender there is -/
  | log (p : ι) (st : LogStatement)
  /-- the critical section of its push -/
  | push (p : ι)
  | setGlobal (b : Bool)
  /-- anything else of the sender and its queue -/
  | sender (l : LogSender.Label ι)
  deriving Repr

variable [DecidableEq ι]

def setInside (s : LogProgram ι) (p : ι) (o : Option LogStatement) :
    LogProgram ι :=
  { s with inside := fun i => if i = p then o else s.inside i }

/-- `EPOLL_LOG_IMPL`, up to the push. -/
def log (s : LogProgram ι) (p : ι) (st : LogStatement) : LogProgram ι :=
  if st.level.toNat < s.compileLevel then s
  else if !s.registered then s
  else s.setInside p (some st)

def push (s : LogProgram ι) (p : ι) (st : LogStatement) : LogProgram ι :=
  { s.setInside p none with
    sender := s.sender.enter p st.text
    stored := s.stored ++
      if (s.sender.queue.pushLocked st.text).1 then [st] else [] }

def step (s : LogProgram ι) : Label ι → Option (LogProgram ι)
  | .log p st =>
      if s.sender.pc p = .idle ∧ s.inside p = none then some (s.log p st)
      else none
  | .push p =>
      match s.inside p with
      | none => none
      | some st =>
          if s.sender.fault.isSome ∨ s.sender.pc p ≠ .idle then none
          else some (s.push p st)
  | .setGlobal b => some { s with registered := b }
  | .sender (.enter _ _) => none
  | .sender l => (s.sender.step l).map fun w => { s with sender := w }

end LogProgram

end GameFrame
