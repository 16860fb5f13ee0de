import Mathlib

/-!
# The rate-limited logger

`_base_logger` picks one policy per call, in the order `once`, `throttle_identical`,
`throttle`, and otherwise logs unconditionally.  The three policies keep their state in the
three module-level objects `_logging_once`, `_logging_identical` and `_logging_throttle`,
shared by every call site and keyed by the call site's identity (`_frame_to_caller_id`).

Times are the nanosecond counts of `rospy.Time` and `rospy.Duration`; the clock reading a
call sees is part of the call (`LogCall.now`).  The hash `md5(msg.encode()).hexdigest()` is a
parameter `md5` of the section.

A run folds calls from the empty tables (`logRun`); `history` pairs each call of a run with
whether it was logged.
-/

namespace RospyCore

/-- `_frame_to_caller_id(frame)`: the file, the line and the instruction offset of the frame
that called the logging function.  The code keys its tables by `pickle.dumps` of this triple,
which is a function of the triple, one-to-one. -/
structure CallerId where
  file : String
  lineno : Nat
  lasti : Nat
  deriving DecidableEq, Repr

/-- `LoggingThrottle`: the time of each call site's last throttled log. -/
structure LoggingThrottle where
  lastLoggingTimeTable : CallerId → Option Int

/-- `LoggingThrottle.__call__(caller_id, period)` at clock reading `now`.  A stored time after
`now` means the clock went back: the whole table is dropped, not only this site's entry. -/
def LoggingThrottle.call (self : LoggingThrottle) (now : Int) (callerId : CallerId)
    (period : Int) : LoggingThrottle × Bool :=
  match self.lastLoggingTimeTable callerId with
  | none => (⟨Function.update self.lastLoggingTimeTable callerId (some now)⟩, true)
  | some lastLoggingTime =>
    if now - lastLoggingTime > period then
      (⟨Function.update self.lastLoggingTimeTable callerId (some now)⟩, true)
    else if lastLoggingTime > now then
      (⟨Function.update (fun _ => none) callerId (some now)⟩, true)
    else (self, false)

/-- `LoggingIdentical`: the hash of each call site's last message. -/
structure LoggingIdentical where
  lastLoggingMsgTable : CallerId → Option String

section Md5

variable (md5 : String → String)

/-- `LoggingIdentical.__call__(caller_id, msg)`. -/
def LoggingIdentical.call (self : LoggingIdentical) (callerId : CallerId) (msg : String) :
    LoggingIdentical × Bool :=
  if some (md5 msg) ≠ self.lastLoggingMsgTable callerId then
    (⟨Function.update self.lastLoggingMsgTable callerId (some (md5 msg))⟩, true)
  else (self, false)

end Md5

/-- `LoggingOnce`: the call sites that have logged. -/
structure LoggingOnce where
  calledCallerIds : List CallerId

/-- `LoggingOnce.__call__(caller_id)`. -/
def LoggingOnce.call (self : LoggingOnce) (callerId : CallerId) : LoggingOnce × Bool :=
  if callerId ∉ self.calledCallerIds then (⟨callerId :: self.calledCallerIds⟩, true)
  else (self, false)

/-- The three module-level objects. -/
structure Loggers where
  loggingThrottle : LoggingThrottle
  loggingIdentical : LoggingIdentical
  loggingOnce : LoggingOnce

/-- The tables at import time: all empty. -/
def Loggers.init : Loggers := ⟨⟨fun _ => none⟩, ⟨fun _ => none⟩, ⟨[]⟩⟩

/-! ### The logging functions -/

/-- The keyword arguments of `_base_logger` that a public logging function sets. -/
structure LogArgs where
  throttle : Option Int := none
  throttleIdentical : Bool := false
  level : String
  once : Bool := false
  deriving DecidableEq, Repr

/-- A call of `_base_logger`: the arguments, the frame two levels up, and the clock reading
that `LoggingThrottle` would take. -/
structure LogCall where
  args : LogArgs
  msg : String
  msgArgs : List String
  loggerName : Option String
  caller : CallerId
  now : Int
  deriving DecidableEq, Repr

/-- A record handed to `logfunc`: the logger's name, the level, the message and its
arguments. -/
structure LogRecord where
  logger : String
  level : String
  msg : String
  msgArgs : List String
  deriving DecidableEq, Repr

/-- `logging.getLogger('rosout')`, or its child named by the `logger_name` keyword. -/
def LogCall.logger (c : LogCall) : String :=
  match c.loggerName with
  | some name => if name = "" then "rosout" else "rosout." ++ name
  | none => "rosout"

/-- `logfunc(msg, *args, **kwargs)`. -/
def LogCall.record (c : LogCall) : LogRecord := ⟨c.logger, c.args.level, c.msg, c.msgArgs⟩

/-- Python's truth value of the `throttle` argument: a period of `0` is false. -/
def throttleSet : Option Int → Bool
  | some period => period ≠ 0
  | none => false

section Md5

variable (md5 : String → String)

/-- `_base_logger(msg, args, kwargs, throttle, throttle_identical, level, once)`. -/
def baseLogger (s : Loggers) (c : LogCall) : Loggers × Option LogRecord :=
  if c.args.once then
    let (o, b) := s.loggingOnce.call c.caller
    ({ s with loggingOnce := o }, if b then some c.record else none)
  else if c.args.throttleIdentical then
    let (t, throttleElapsed) := match c.args.throttle with
      | some period => s.loggingThrottle.call c.now c.caller period
      | none => (s.loggingThrottle, false)
    let (i, b) := s.loggingIdentical.call md5 c.caller c.msg
    ({ s with loggingThrottle := t, loggingIdentical := i },
      if b || throttleElapsed then some c.record else none)
  else if throttleSet c.args.throttle then
    let (t, b) := s.loggingThrottle.call c.now c.caller (c.args.throttle.getD 0)
    ({ s with loggingThrottle := t }, if b then some c.record else none)
  else (s, some c.record)

/-- Whether a call is logged. -/
def emits (s : Loggers) (c : LogCall) : Bool := (baseLogger md5 s c).2.isSome

/-- The tables after a run of calls. -/
def logRun (s : Loggers) (cs : List LogCall) : Loggers :=
  cs.foldl (fun s c => (baseLogger md5 s c).1) s

/-- Each call of a run with whether it was logged, oldest first. -/
def history : Loggers → List LogCall → List (LogCall × Bool)
  | _, [] => []
  | s, c :: cs => (c, emits md5 s c) :: history (baseLogger md5 s c).1 cs

@[simp] theorem logRun_nil (s : Loggers) : logRun md5 s [] = s := rfl

@[simp] theorem logRun_append_singleton (s : Loggers) (cs : List LogCall) (c : LogCall) :
    logRun md5 s (cs ++ [c]) = (baseLogger md5 (logRun md5 s cs) c).1 := by
  simp [logRun, List.foldl_append]

@[simp] theorem history_append_singleton (s : Loggers) (cs : List LogCall) (c : LogCall) :
    history md5 s (cs ++ [c]) = history md5 s cs ++ [(c, emits md5 (logRun md5 s cs) c)] := by
  induction cs generalizing s with
  | nil => rfl
  | cons d cs ih => simp [history, ih, logRun]

end Md5

/-! ### The public logging functions -/

def logdebug : LogArgs := { level := "debug" }
def loginfo : LogArgs := { level := "info" }
def logwarn : LogArgs := { level := "warning" }
def logerr : LogArgs := { level := "error" }
def logfatal : LogArgs := { level := "critical" }

/-- The arguments of the `log*_throttle(period, msg, ...)` functions. -/
def throttled (level : String) (period : Int) : LogArgs := { throttle := some period, level }

def logdebugThrottle := throttled "debug"
def loginfoThrottle := throttled "info"
def logwarnThrottle := throttled "warn"
def logerrThrottle := throttled "error"
def logfatalThrottle := throttled "critical"

/-- The arguments of the `log*_throttle_identical(period, msg, ...)` functions. -/
def throttledIdentical (level : String) (period : Int) : LogArgs :=
  { throttle := some period, throttleIdentical := true, level }

def logdebugThrottleIdentical := throttledIdentical "debug"
def loginfoThrottleIdentical := throttledIdentical "info"
def logwarnThrottleIdentical := throttledIdentical "warn"
def logerrThrottleIdentical := throttledIdentical "error"
def logfatalThrottleIdentical := throttledIdentical "critical"

/-- The arguments of the `log*_once(msg, ...)` functions. -/
def onceOnly (level : String) : LogArgs := { level, once := true }

def logdebugOnce := onceOnly "debug"
def loginfoOnce := onceOnly "info"
def logwarnOnce := onceOnly "warn"
def logerrOnce := onceOnly "error"
def logfatalOnce := onceOnly "critical"

end RospyCore
