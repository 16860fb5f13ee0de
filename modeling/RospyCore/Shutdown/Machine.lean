import Mathlib

/-!
# The shutdown machine

`signal_shutdown`, `_add_shutdown_hook`, `_add_shutdown_thread` and `_ros_signal` as a
machine whose threads run interleaved, one Python statement per step.

A thread is a stack of frames, innermost first.  A frame of one of the four functions knows
where it is (its `pc`); a `body` frame is code outside the module: a thread's own code, a
running hook, a previous signal handler.  A body may call into the module, return or raise at
any time, so the machine covers hooks that register hooks or call `signal_shutdown`.  A
signal may push a `_ros_signal` frame on top of any running thread at any time, in particular
between the tests of `signal_shutdown` and the assignment `_in_shutdown = True`, and on a
thread that already holds the reentrant `_shutdown_lock`.

When a frame returns or raises, the frames below it react in turn (`Frame.resume`): a caller
at the call continues, an `except` clause catches, a frame with no handler for the exception
is left too, and a frame inside `with _shutdown_lock` releases one level of the lock as it is
left (`unwind`).

The three hook lists are one field indexed by `Phase`.  Beside the program's state the
machine keeps a trace of what happened (`Event`): hook invocations with what the hook could
observe, the ends of the hook loops, the lists `del` emptied, the setting of `_shutdown_flag`, the start and end of each
`signal_shutdown` call, and the return of each registration.
-/

namespace RospyCore

/-! ### Data -/

/-- The three hook lists: `_client_shutdown_hooks`, `_preshutdown_hooks`, `_shutdown_hooks`. -/
inductive Phase where
  | client
  | pre
  | normal
  deriving DecidableEq, Repr

/-- The Python exceptions that matter here: `TypeError` (`_add_shutdown_hook` of something not
callable), `ValueError` (`list.remove` of a missing element), `RuntimeError` (`Thread.join` of
the current thread), any other subclass of `Exception`, `KeyboardInterrupt`, `SystemExit`, and
a subclass of `Exception` whose `str()` raises `raised`. -/
inductive Exc where
  | typeError
  | valueError
  | runtimeError
  | error
  | keyboardInterrupt
  | systemExit
  | unprintable (raised : Exc)
  deriving DecidableEq, Repr

/-- `isinstance(e, Exception)`: `KeyboardInterrupt` and `SystemExit` derive from
`BaseException` only. -/
def Exc.isException : Exc → Bool
  | .keyboardInterrupt | .systemExit => false
  | _ => true

/-- How a frame ends. -/
inductive Completion where
  | ret
  | exc (e : Exc)
  deriving DecidableEq, Repr

/-- A hook handed to a registration: the id of that registration, and `callable(h)`. -/
structure Hook where
  id : Nat
  callable : Bool
  deriving DecidableEq, Repr

/-- Where a `signal_shutdown(reason)` call is: the unlocked test
`if _shutdown_flag or _in_shutdown: return`; `with _shutdown_lock:`; the same test under the
lock; `_in_shutdown = True`; `for h in <hooks>:` at index `i`; the hook at index `i` running;
`del <hooks>[:]`; `_shutdown_flag = True`; `threads = _shutdown_threads[:]` and the release of
the lock; `for t in threads: if t.is_alive(): t.join(_TIMEOUT_SHUTDOWN_JOIN)` at index `i`;
`del _shutdown_threads[:]`; `rospy.rostime.wallsleep(0.1)` in `try ... except
KeyboardInterrupt`. -/
inductive ShutdownPc where
  | start
  | acquire
  | recheck
  | setInShutdown
  | loop (phase : Phase) (i : Nat)
  | hook (phase : Phase) (i : Nat)
  | del (phase : Phase)
  | setFlag
  | snapshot
  | join (threads : List Nat) (i : Nat)
  | delThreads
  | sleep
  deriving DecidableEq, Repr

/-- Where an `_add_shutdown_hook(h, hooks, pass_reason_argument)` call is: `callable(h)` and
`if _shutdown_flag:`; `h("already shutdown")` or `h()` running; `with _shutdown_lock:`;
`hooks.append(h)` and the release of the lock. -/
inductive HookPc where
  | start
  | immediate
  | acquire
  | append
  deriving DecidableEq, Repr

/-- Where an `_add_shutdown_thread(t)` call is: `if _shutdown_flag: return`;
`with _shutdown_lock:` and the copy `_shutdown_threads[:]`; the pruning loop over the copy at
index `i`, then `_shutdown_threads.append(t)`. -/
inductive ThreadPc where
  | start
  | acquire
  | prune (copy : List Nat) (i : Nat)
  deriving DecidableEq, Repr

/-- Where a `_ros_signal(sig, stackframe)` call is: before `signal_shutdown("signal-" +
str(sig))`; inside it; `_signalChain.get(sig, None)` and `callable(prev_handler)`;
`prev_handler(sig, stackframe)` running, in `try ... except KeyboardInterrupt`. -/
inductive SignalPc where
  | start
  | shutdown
  | prev
  | prevHandler
  deriving DecidableEq, Repr

/-- A frame of a thread's stack: code outside the module (`body`), or a call of one of the four
functions. -/
inductive Frame where
  | body
  | signalShutdown (call : Nat) (reason : String) (pc : ShutdownPc)
  | addShutdownHook (hook : Hook) (phase : Phase) (pc : HookPc)
  | addShutdownThread (t : Nat) (pc : ThreadPc)
  | rosSignal (sig : Nat) (pc : SignalPc)
  deriving DecidableEq, Repr

/-- What the trace records: a hook called (from its list by `signal_shutdown` call `caller`,
or with `caller = none` at once by `_add_shutdown_hook`), with what `is_shutdown_requested()`
and `is_shutdown()` return at that moment; a hook loop of call `call` finding no next hook;
`del <hooks>[:]` by call `call`, with what the list held; `_shutdown_flag = True`;
`_in_shutdown = True`, with the value it had; the start of call `call`; and a frame of the
module ending, where it is, by returning or raising. -/
inductive Event where
  | invoke (hook : Nat) (phase : Phase) (arg : Option String) (caller : Option Nat)
      (requested shutdown : Bool)
  | loopEnd (call : Nat) (phase : Phase)
  | drain (call : Nat) (phase : Phase) (hooks : List Nat)
  | setFlag (call : Nat)
  | setInShutdown (call : Nat) (was : Bool)
  | start (call : Nat) (reason : String)
  | leave (f : Frame) (c : Completion)
  deriving DecidableEq, Repr

/-- The module's globals, the threads, and the trace.  The three hook lists hold hook ids;
`_shutdown_lock` is its owner and recursion level; `dead` are the threads that have ended;
each thread, named by its index, is its frames, innermost first; `consumed` counts the hooks
of each list the running loop has called (ghost state). -/
structure Core where
  shutdownFlag : Bool
  inShutdown : Bool
  hooks : Phase → List Nat
  shutdownThreads : List Nat
  shutdownLock : Option (Nat × Nat)
  dead : List Nat
  threads : List (List Frame)
  trace : List Event
  consumed : Phase → Nat
  nextHook : Nat
  nextCall : Nat

/-- One thread running its own code, nothing registered. -/
def Core.init : Core :=
  ⟨false, false, fun _ => [], [], none, [], [[.body]], [], fun _ => 0, 0, 0⟩

/-- `is_shutdown()` -/
def Core.isShutdown (s : Core) : Bool := s.shutdownFlag

/-- `is_shutdown_requested()` -/
def Core.isShutdownRequested (s : Core) : Bool := s.inShutdown

/-- `t.is_alive()`: started and not ended. -/
def Core.alive (s : Core) (t : Nat) : Bool := t < s.threads.length && t ∉ s.dead

/-! ### Frames -/

/-- The argument a hook of this list is called with: none for client hooks. -/
def Phase.arg (phase : Phase) (reason : String) : Option String :=
  match phase with
  | .client => none
  | _ => some reason

/-- Where `signal_shutdown` goes after `del <hooks>[:]`. -/
def Phase.next : Phase → ShutdownPc
  | .client => .loop .pre 0
  | .pre => .setFlag
  | .normal => .snapshot

/-- What leaves the `except` clause around a hook of this list that raised `e`: nothing, when
the clause catches and reports `e`; `e`, when it does not catch it (the shutdown list's
`except Exception` lets `KeyboardInterrupt` and `SystemExit` through); what `str(e)` raises,
when the shutdown list's `sys.stderr.write("signal_shutdown hook error[%s]\n"%e)` formats
`e`.  The bare `except:` of the client and pre lists reports with `traceback.print_exc()`,
which prints a placeholder for a failing `str(e)`. -/
def Phase.escape : Phase → Exc → Option Exc
  | .normal, .unprintable raised => some raised
  | .normal, e => if e.isException then none else some e
  | _, _ => none

/-- Inside `with _shutdown_lock`. -/
def Frame.holdsLock : Frame → Bool
  | .signalShutdown _ _ pc =>
    match pc with
    | .recheck | .setInShutdown | .loop _ _ | .hook _ _ | .del _ | .setFlag | .snapshot => true
    | _ => false
  | .addShutdownHook _ _ .append => true
  | .addShutdownThread _ (.prune _ _) => true
  | _ => false

/-- What a frame does when the frame above it ends with `c`: continue at a new place, or
end as well.  A frame not at a call was interrupted by a signal handler; it goes on where it
was, or meets the handler's exception where it was. -/
def Frame.resume : Frame → Completion → Sum Frame Completion
  | .body, _ => .inl .body
  | .signalShutdown call reason pc, c =>
    match pc, c with
    | .hook phase i, .ret => .inl (.signalShutdown call reason (.loop phase (i + 1)))
    | .hook phase i, .exc e =>
      match phase.escape e with
      | none => .inl (.signalShutdown call reason (.loop phase (i + 1)))
      | some e' => .inr (.exc e')
    | .sleep, .exc .keyboardInterrupt => .inr .ret
    | pc, .ret => .inl (.signalShutdown call reason pc)
    | _, .exc e => .inr (.exc e)
  | .addShutdownHook h phase pc, c =>
    match pc, c with
    | .immediate, c => .inr c
    | pc, .ret => .inl (.addShutdownHook h phase pc)
    | _, .exc e => .inr (.exc e)
  | .addShutdownThread u pc, c =>
    match c with
    | .ret => .inl (.addShutdownThread u pc)
    | .exc e => .inr (.exc e)
  | .rosSignal sig pc, c =>
    match pc, c with
    | .shutdown, .ret => .inl (.rosSignal sig .prev)
    | .prevHandler, .exc .keyboardInterrupt => .inr .ret
    | .prevHandler, c => .inr c
    | pc, .ret => .inl (.rosSignal sig pc)
    | _, .exc e => .inr (.exc e)

/-- The trace entry of a frame that ends with `c`. -/
def Frame.endEvent : Frame → Completion → Option Event
  | .body, _ => none
  | f, c => some (.leave f c)

/-- The frames below an ending frame, as they react: the stack that is left, and the frames
that ended, each with how it ended, innermost first. -/
def unwind : List Frame → Completion → List Frame × List (Frame × Completion)
  | [], _ => ([], [])
  | f :: fs, c =>
    match f.resume c with
    | .inl f' => (f' :: fs, [])
    | .inr c' => let r := unwind fs c'; (r.1, (f, c') :: r.2)

/-! ### The lock -/

/-- Acquire `_shutdown_lock` for thread `t`, if it is free or already `t`'s. -/
def acquireLock (lock : Option (Nat × Nat)) (t : Nat) : Option (Option (Nat × Nat)) :=
  match lock with
  | none => some (some (t, 1))
  | some (u, n) => if u = t then some (some (t, n + 1)) else none

/-- Release `k` levels of `_shutdown_lock`. -/
def releaseLock (lock : Option (Nat × Nat)) (k : Nat) : Option (Nat × Nat) :=
  match lock with
  | none => none
  | some (u, n) => if n ≤ k then none else some (u, n - k)

/-! ### Statements -/

/-- Thread `t`'s frames. -/
def Core.stack (s : Core) (t : Nat) : List Frame := s.threads.getD t []

/-- Replace thread `t`'s frames. -/
def Core.setStack (s : Core) (t : Nat) (st : List Frame) : Core :=
  { s with threads := s.threads.set t st }

/-- What the top frame's statement does to its thread's stack: go on at a new place, go on at a
new place and call `child` from there, or return or raise. -/
inductive Outcome where
  | goto (f : Frame)
  | call (f : Frame) (child : Frame)
  | done (c : Completion)

/-- A new, numbered `signal_shutdown(reason)` call. -/
def Core.callShutdown (s : Core) (reason : String) : Core × Frame :=
  ({ s with nextCall := s.nextCall + 1, trace := s.trace ++ [.start s.nextCall reason] },
    .signalShutdown s.nextCall reason .start)

/-- One statement of `signal_shutdown` call `call` on thread `t`; `none` while a hook runs
or the lock is taken. -/
def Core.execShutdown (s : Core) (t call : Nat) (reason : String) (pc : ShutdownPc) :
    Option (Core × Outcome) :=
  let here := Frame.signalShutdown call reason
  match pc with
  | .start =>
    some (s, if s.shutdownFlag || s.inShutdown then .done .ret else .goto (here .acquire))
  | .acquire =>
    (acquireLock s.shutdownLock t).map fun l =>
      ({ s with shutdownLock := l }, .goto (here .recheck))
  | .recheck =>
    some (s, if s.shutdownFlag || s.inShutdown then .done .ret else .goto (here .setInShutdown))
  | .setInShutdown =>
    some ({ s with inShutdown := true, trace := s.trace ++ [.setInShutdown call s.inShutdown] },
      .goto (here (.loop .client 0)))
  | .loop phase i =>
    match (s.hooks phase)[i]? with
    | some h =>
      some ({ s with
          trace := s.trace ++
            [.invoke h phase (phase.arg reason) (some call) s.inShutdown s.shutdownFlag]
          consumed := Function.update s.consumed phase (i + 1) },
        .call (here (.hook phase i)) .body)
    | none =>
      some ({ s with trace := s.trace ++ [.loopEnd call phase] }, .goto (here (.del phase)))
  | .hook _ _ => none
  | .del phase =>
    some ({ s with
        hooks := Function.update s.hooks phase []
        consumed := Function.update s.consumed phase 0
        trace := s.trace ++ [.drain call phase (s.hooks phase)] },
      .goto (here phase.next))
  | .setFlag =>
    some ({ s with shutdownFlag := true, trace := s.trace ++ [.setFlag call] },
      .goto (here (.loop .normal 0)))
  | .snapshot =>
    some ({ s with shutdownLock := releaseLock s.shutdownLock 1 },
      .goto (here (.join s.shutdownThreads 0)))
  | .join threads i =>
    match threads[i]? with
    | some u =>
      some (s, if s.alive u ∧ u = t then .done (.exc .runtimeError)
        else .goto (here (.join threads (i + 1))))
    | none => some (s, .goto (here .delThreads))
  | .delThreads => some ({ s with shutdownThreads := [] }, .goto (here .sleep))
  | .sleep => some (s, .done .ret)

/-- One statement of `_add_shutdown_hook(h, hooks, pass_reason_argument)` on thread `t`;
`pass_reason_argument` is false exactly for the client list. -/
def Core.execHook (s : Core) (t : Nat) (h : Hook) (phase : Phase) (pc : HookPc) :
    Option (Core × Outcome) :=
  let here := Frame.addShutdownHook h phase
  match pc with
  | .start =>
    if !h.callable then some (s, .done (.exc .typeError))
    else if s.shutdownFlag then
      some ({ s with trace := s.trace ++
          [.invoke h.id phase (phase.arg "already shutdown") none s.inShutdown s.shutdownFlag] },
        .call (here .immediate) .body)
    else some (s, .goto (here .acquire))
  | .immediate => none
  | .acquire =>
    (acquireLock s.shutdownLock t).map fun l =>
      ({ s with shutdownLock := l }, .goto (here .append))
  | .append =>
    some ({ s with hooks := Function.update s.hooks phase (s.hooks phase ++ [h.id]) }, .done .ret)

/-- One statement of `_add_shutdown_thread(u)` on thread `t`. -/
def Core.execThread (s : Core) (t u : Nat) (pc : ThreadPc) : Option (Core × Outcome) :=
  let here := Frame.addShutdownThread u
  match pc with
  | .start => some (s, if s.shutdownFlag then .done .ret else .goto (here .acquire))
  | .acquire =>
    (acquireLock s.shutdownLock t).map fun l =>
      ({ s with shutdownLock := l }, .goto (here (.prune s.shutdownThreads 0)))
  | .prune copy i =>
    match copy[i]? with
    | some other =>
      if s.alive other then some (s, .goto (here (.prune copy (i + 1))))
      else if other ∈ s.shutdownThreads then
        some ({ s with shutdownThreads := s.shutdownThreads.erase other },
          .goto (here (.prune copy (i + 1))))
      else some (s, .done (.exc .valueError))
    | none => some ({ s with shutdownThreads := s.shutdownThreads ++ [u] }, .done .ret)

/-- One statement of `_ros_signal(sig, stackframe)`; its `prev_handler` test is `Act.chain`. -/
def Core.execSignal (s : Core) (sig : Nat) : SignalPc → Option (Core × Outcome)
  | .start =>
    let r := s.callShutdown ("signal-" ++ toString sig)
    some (r.1, .call (.rosSignal sig .shutdown) r.2)
  | _ => none

/-- One statement of a frame of the module on thread `t`. -/
def Core.execFrame (s : Core) (t : Nat) : Frame → Option (Core × Outcome)
  | .body => none
  | .signalShutdown call reason pc => s.execShutdown t call reason pc
  | .addShutdownHook h phase pc => s.execHook t h phase pc
  | .addShutdownThread u pc => s.execThread t u pc
  | .rosSignal sig pc => s.execSignal sig pc

/-- Thread `t`'s top frame `top` ends with `c`, over `rest`: the frames below react, each
frame left inside `with _shutdown_lock` releases a level, and the frames left are traced. -/
def Core.leave (s : Core) (t : Nat) (top : Frame) (rest : List Frame) (c : Completion) :
    Core :=
  let r := unwind rest c
  let ended := (top, c) :: r.2
  { s with
    threads := s.threads.set t r.1
    shutdownLock := releaseLock s.shutdownLock (ended.countP fun e => e.1.holdsLock)
    trace := s.trace ++ ended.filterMap fun e => e.1.endEvent e.2 }

/-- Thread `t`'s stack after its top frame `top`, over `rest`, ran a statement. -/
def Core.apply (s : Core) (t : Nat) (top : Frame) (rest : List Frame) : Outcome → Core
  | .goto f => s.setStack t (f :: rest)
  | .call f child => s.setStack t (child :: f :: rest)
  | .done c => s.leave t top rest c

/-! ### Runs -/

/-- A call a body makes into the module; `_add_shutdown_hook` is handed a new hook, of which
only `callable(h)` matters. -/
inductive Op where
  | signalShutdown (reason : String)
  | addShutdownHook (phase : Phase) (callable : Bool)
  | addShutdownThread (t : Nat)
  deriving DecidableEq, Repr

/-- `add_client_shutdown_hook(h)` -/
def addClientShutdownHook (callable : Bool) : Op := .addShutdownHook .client callable

/-- `add_preshutdown_hook(h)` -/
def addPreshutdownHook (callable : Bool) : Op := .addShutdownHook .pre callable

/-- `add_shutdown_hook(h)` -/
def addShutdownHook (callable : Bool) : Op := .addShutdownHook .normal callable

/-- The frame a call starts, and the numbering it takes. -/
def Core.callOp (s : Core) : Op → Core × Frame
  | .signalShutdown reason => s.callShutdown reason
  | .addShutdownHook phase callable =>
    ({ s with nextHook := s.nextHook + 1 }, .addShutdownHook ⟨s.nextHook, callable⟩ phase .start)
  | .addShutdownThread u => (s, .addShutdownThread u .start)

/-- What a thread does next: its top frame, of the module, runs a statement; `_ros_signal`
finds whether `_signalChain.get(sig, None)` is callable; a body calls into the module, returns
or raises; a signal runs `_ros_signal` on the main thread; a new thread starts; a thread with
nothing left to run ends. -/
inductive Act where
  | exec
  | chain (callable : Bool)
  | call (op : Op)
  | ret
  | raise (e : Exc)
  | signal (sig : Nat)
  | spawn
  | exit
  deriving DecidableEq, Repr

/-- Thread `t` does `a`; `none` when it cannot. -/
def Core.step (s : Core) (t : Nat) : Act → Option Core
  | .exec =>
    match s.stack t with
    | f :: rest => (s.execFrame t f).map fun r => r.1.apply t f rest r.2
    | [] => none
  | .chain callable =>
    match s.stack t with
    | .rosSignal sig .prev :: rest =>
      some (if callable then s.setStack t (.body :: .rosSignal sig .prevHandler :: rest)
        else s.leave t (.rosSignal sig .prev) rest .ret)
    | _ => none
  | .call op =>
    match s.stack t with
    | .body :: _ => let r := s.callOp op; some (r.1.setStack t (r.2 :: s.stack t))
    | _ => none
  | .ret =>
    match s.stack t with
    | .body :: rest => some (s.leave t .body rest .ret)
    | _ => none
  | .raise e =>
    match s.stack t with
    | .body :: rest => some (s.leave t .body rest (.exc e))
    | _ => none
  | .signal sig =>
    if t = 0 ∧ s.stack t ≠ [] then some (s.setStack t (.rosSignal sig .start :: s.stack t))
    else none
  | .spawn => some { s with threads := s.threads ++ [[.body]] }
  | .exit =>
    if t < s.threads.length ∧ s.stack t = [] ∧ t ∉ s.dead then some { s with dead := t :: s.dead }
    else none

/-- The states some interleaving reaches. -/
inductive Core.Reachable : Core → Prop
  | init : Core.Reachable .init
  | step {s s' : Core} (t : Nat) (a : Act) :
      Core.Reachable s → s.step t a = some s' → Core.Reachable s'

/-- Run a schedule: which thread acts, and how. -/
def Core.run (s : Core) : List (Nat × Act) → Option Core
  | [] => some s
  | (t, a) :: as => (s.step t a).bind fun s' => s'.run as

theorem Core.Reachable.run {s s' : Core} (hs : s.Reachable) {as : List (Nat × Act)}
    (h : s.run as = some s') : s'.Reachable := by
  induction as generalizing s with
  | nil => cases h; exact hs
  | cons ta as ih =>
    obtain ⟨s₁, h₁, h₂⟩ := Option.bind_eq_some.mp h
    exact ih (.step ta.1 ta.2 hs h₁) h₂

end RospyCore
