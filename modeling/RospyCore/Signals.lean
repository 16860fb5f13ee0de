import Mathlib

/-!
# Chaining signal handlers

`register_signals` installs `_ros_signal` for `SIGTERM` and `SIGINT` and records, in
`_signalChain`, whatever `signal.signal` returns: the handler that was installed before.  On
delivery `_ros_signal` calls `signal_shutdown` and then that previous handler, if it is
callable.

Nothing stops the previous handler from being `_ros_signal` itself: a second
`register_signals`, with no other install in between, records `_ros_signal` as its own
predecessor (`registerSignals_twice`), and a delivery then calls `_ros_signal` from itself
without end (`rosSignalCalls_selfChained`).  `signalChain_rosSignal_iff` says exactly when
this happens over any sequence of registrations and installs of other handlers: when the last
`register_signals` found `_ros_signal` installed.  Otherwise a delivery calls `signal_shutdown`
and at most one other handler (`rosSignalCalls_of_not_selfChained`).
-/

namespace RospyCore

/-- `signal.SIGINT` and `signal.SIGTERM`. -/
def SIGINT : Nat := 2
def SIGTERM : Nat := 15

/-- A signal disposition, as `signal.signal` returns and takes it: `SIG_DFL`, `SIG_IGN`, `None`
(a handler not installed from Python), `signal.default_int_handler` (which raises
`KeyboardInterrupt`), `_ros_signal`, or some other Python function, which calls no other
handler. -/
inductive Handler where
  | sigDfl
  | sigIgn
  | pyNone
  | defaultIntHandler
  | rosSignal
  | custom (n : Nat)
  deriving DecidableEq, Repr

/-- `callable(h)`. -/
def Handler.callable : Handler → Bool
  | .defaultIntHandler | .rosSignal | .custom _ => true
  | _ => false

/-- The installed handlers and `_signalChain`. -/
structure Signals where
  installed : Nat → Handler
  signalChain : Nat → Option Handler

/-- At interpreter start: Python's own `SIGINT` handler, the default elsewhere, and an empty
`_signalChain`. -/
def Signals.init : Signals :=
  ⟨fun sig => if sig = SIGINT then .defaultIntHandler else .sigDfl, fun _ => none⟩

/-- `_signalChain[sig] = signal.signal(sig, _ros_signal)`. -/
def Signals.chainTo (s : Signals) (sig : Nat) : Signals :=
  ⟨Function.update s.installed sig .rosSignal,
    Function.update s.signalChain sig (some (s.installed sig))⟩

/-- `register_signals()`. -/
def registerSignals (s : Signals) : Signals := (s.chainTo SIGTERM).chainTo SIGINT

/-- What may happen between registrations: `register_signals`, or some other code installing
its own handler `h` (not `_ros_signal`) for `sig`. -/
inductive SigOp where
  | registerSignals
  | install (sig : Nat) (n : Nat)
  deriving DecidableEq, Repr

def SigOp.apply (s : Signals) : SigOp → Signals
  | .registerSignals => RospyCore.registerSignals s
  | .install sig n => { s with installed := Function.update s.installed sig (.custom n) }

def sigRun (s : Signals) (ops : List SigOp) : Signals := ops.foldl SigOp.apply s

/-- What a delivery calls. -/
inductive SigCall where
  | signalShutdown (reason : String)
  | handler (h : Handler)
  deriving DecidableEq, Repr

/-- The calls a delivery of `sig` to `_ros_signal` makes, in order: `signal_shutdown`, then
the previous handler if it is callable, which for `_ros_signal` starts over.  `none` when
`fuel` nested `_ros_signal` calls do not suffice. -/
def rosSignalCalls (chain : Nat → Option Handler) (sig : Nat) : Nat → Option (List SigCall)
  | 0 => none
  | fuel + 1 =>
    let shutdown := SigCall.signalShutdown ("signal-" ++ toString sig)
    match chain sig with
    | some .rosSignal =>
      (rosSignalCalls chain sig fuel).map fun cs => shutdown :: .handler .rosSignal :: cs
    | some h => some (shutdown :: if h.callable then [.handler h] else [])
    | none => some [shutdown]

/-! ### Delivery -/

/-- With `_ros_signal` as its own predecessor, no nesting budget suffices. -/
theorem rosSignalCalls_selfChained {chain : Nat → Option Handler} {sig : Nat}
    (h : chain sig = some .rosSignal) : ∀ fuel, rosSignalCalls chain sig fuel = none
  | 0 => rfl
  | fuel + 1 => by simp [rosSignalCalls, h, rosSignalCalls_selfChained h fuel]

/-- Otherwise a delivery calls `signal_shutdown` and at most one other handler. -/
theorem rosSignalCalls_of_not_selfChained {chain : Nat → Option Handler} {sig : Nat}
    (h : chain sig ≠ some .rosSignal) (fuel : Nat) :
    ∃ rest, rosSignalCalls chain sig (fuel + 1) =
        some (.signalShutdown ("signal-" ++ toString sig) :: rest) ∧
      (rest = [] ∨ ∃ h', h'.callable ∧ h' ≠ .rosSignal ∧ rest = [.handler h']) := by
  cases hc : chain sig with
  | none => exact ⟨[], by simp [rosSignalCalls, hc], Or.inl rfl⟩
  | some h' =>
    have hne : h' ≠ .rosSignal := fun e => h (e ▸ hc)
    refine ⟨if h'.callable then [.handler h'] else [], ?_, ?_⟩
    · cases h' <;> simp_all [rosSignalCalls]
    · split
      · exact Or.inr ⟨h', ‹_›, hne, rfl⟩
      · exact Or.inl rfl

/-! ### Registrations -/

@[simp] theorem registerSignals_installed (s : Signals) (sig : Nat)
    (hsig : sig = SIGINT ∨ sig = SIGTERM) :
    (registerSignals s).installed sig = .rosSignal := by
  rcases hsig with rfl | rfl <;> simp [registerSignals, Signals.chainTo, Function.update_apply]

theorem registerSignals_signalChain (s : Signals) (sig : Nat)
    (hsig : sig = SIGINT ∨ sig = SIGTERM) :
    (registerSignals s).signalChain sig = some (s.installed sig) := by
  rcases hsig with rfl | rfl <;>
    simp [registerSignals, Signals.chainTo, Function.update_apply, SIGINT, SIGTERM]

theorem sigRun_append_singleton (s : Signals) (ops : List SigOp) (o : SigOp) :
    sigRun s (ops ++ [o]) = SigOp.apply (sigRun s ops) o := by
  simp [sigRun, List.foldl_append]

/-- Where the last `register_signals` of `ops ++ [o]` is, for `o` another install. -/
theorem last_register_append {o : SigOp} (ho : o ≠ .registerSignals) (ops : List SigOp)
    (P : List SigOp → Prop) :
    (∃ pre post, ops ++ [o] = pre ++ .registerSignals :: post ∧ .registerSignals ∉ post ∧ P pre) ↔
      ∃ pre post, ops = pre ++ .registerSignals :: post ∧ .registerSignals ∉ post ∧ P pre := by
  constructor
  · rintro ⟨pre, post, he, hn, hp⟩
    rcases List.eq_nil_or_concat post with rfl | ⟨post', x, rfl⟩
    · exact absurd (List.append_inj' he rfl).2 (by simp [ho])
    · rw [List.concat_eq_append, ← List.cons_append, ← List.append_assoc] at he
      obtain ⟨rfl, -⟩ := List.append_inj' he rfl
      exact ⟨pre, post', rfl, fun h => hn (by simp [h]), hp⟩
  · rintro ⟨pre, post, rfl, hn, hp⟩
    exact ⟨pre, post ++ [o], by simp, by simp [hn, Ne.symm ho], hp⟩

/-- **When `_signalChain` holds `_ros_signal`**: exactly when the last `register_signals`
found `_ros_signal` already installed. -/
theorem signalChain_rosSignal_iff (ops : List SigOp) (sig : Nat)
    (hsig : sig = SIGINT ∨ sig = SIGTERM) :
    (sigRun Signals.init ops).signalChain sig = some .rosSignal ↔
      ∃ pre post, ops = pre ++ .registerSignals :: post ∧ .registerSignals ∉ post ∧
        (sigRun Signals.init pre).installed sig = .rosSignal := by
  induction ops using List.reverseRecOn with
  | nil => simp [sigRun, Signals.init]
  | append_singleton ops o ih =>
    rw [sigRun_append_singleton]
    cases o with
    | registerSignals =>
      show (registerSignals _).signalChain sig = _ ↔ _
      rw [registerSignals_signalChain _ _ hsig, Option.some.injEq]
      constructor
      · exact fun h => ⟨ops, [], by simp, by simp, h⟩
      · rintro ⟨pre, post, he, hn, hp⟩
        rcases List.eq_nil_or_concat post with rfl | ⟨post', x, rfl⟩
        · obtain ⟨rfl, -⟩ := List.append_inj' he rfl
          exact hp
        · rw [List.concat_eq_append, ← List.cons_append, ← List.append_assoc] at he
          obtain ⟨-, he'⟩ := List.append_inj' he rfl
          simp only [List.singleton_inj] at he'
          subst he'
          simp at hn
    | install sig' n =>
      rw [last_register_append (by simp)]
      exact ih

/-- Only `register_signals` installs `_ros_signal`. -/
theorem mem_of_installed_rosSignal {ops : List SigOp} {sig : Nat}
    (h : (sigRun Signals.init ops).installed sig = .rosSignal) : .registerSignals ∈ ops := by
  induction ops using List.reverseRecOn with
  | nil => simp only [sigRun, List.foldl_nil, Signals.init] at h; split at h <;> cases h
  | append_singleton ops o ih =>
    rw [sigRun_append_singleton] at h
    cases o with
    | registerSignals => simp
    | install sig' n =>
      simp only [SigOp.apply, Function.update_apply] at h
      split at h
      · cases h
      · exact List.mem_append_left _ (ih h)

/-- **The chain law.**  `_signalChain` maps `SIGINT` or `SIGTERM` to `_ros_signal` exactly
when the last `register_signals` found `_ros_signal` installed, so never when
`register_signals` ran at most once.  Then a delivery never ends; otherwise it calls
`signal_shutdown` and at most one other handler. -/
theorem register_signals_chain_law (ops : List SigOp) (sig : Nat)
    (hsig : sig = SIGINT ∨ sig = SIGTERM) :
    ((sigRun Signals.init ops).signalChain sig = some .rosSignal ↔
      ∃ pre post, ops = pre ++ .registerSignals :: post ∧ .registerSignals ∉ post ∧
        (sigRun Signals.init pre).installed sig = .rosSignal) ∧
    (ops.count .registerSignals ≤ 1 → (sigRun Signals.init ops).signalChain sig ≠ some .rosSignal) ∧
    ((sigRun Signals.init ops).signalChain sig ≠ some .rosSignal → ∀ fuel, ∃ rest,
      rosSignalCalls (sigRun Signals.init ops).signalChain sig (fuel + 1) =
        some (.signalShutdown ("signal-" ++ toString sig) :: rest) ∧
      (rest = [] ∨ ∃ h', h'.callable ∧ h' ≠ .rosSignal ∧ rest = [.handler h'])) ∧
    ((sigRun Signals.init ops).signalChain sig = some .rosSignal →
      ∀ fuel, rosSignalCalls (sigRun Signals.init ops).signalChain sig fuel = none) := by
  refine ⟨signalChain_rosSignal_iff ops sig hsig, fun hc h => ?_,
    rosSignalCalls_of_not_selfChained, rosSignalCalls_selfChained⟩
  obtain ⟨pre, post, rfl, -, hp⟩ := (signalChain_rosSignal_iff _ sig hsig).1 h
  have := mem_of_installed_rosSignal hp
  rw [List.count_append, List.count_cons_self] at hc
  have : 0 < pre.count .registerSignals := List.count_pos_iff.2 ‹_›
  omega

/-- Another handler for `SIGINT`, then one `register_signals`. -/
theorem register_signals_chain_law_once :
    let ops : List SigOp := [.install SIGINT 7, .registerSignals]
    (SIGINT = SIGINT ∨ SIGINT = SIGTERM) ∧
      ((sigRun Signals.init ops).signalChain SIGINT = some .rosSignal ↔
        ∃ pre post, ops = pre ++ .registerSignals :: post ∧ .registerSignals ∉ post ∧
          (sigRun Signals.init pre).installed SIGINT = .rosSignal) ∧
      (ops.count .registerSignals ≤ 1 →
        (sigRun Signals.init ops).signalChain SIGINT ≠ some .rosSignal) ∧
      ((sigRun Signals.init ops).signalChain SIGINT ≠ some .rosSignal → ∀ fuel, ∃ rest,
        rosSignalCalls (sigRun Signals.init ops).signalChain SIGINT (fuel + 1) =
          some (.signalShutdown ("signal-" ++ toString SIGINT) :: rest) ∧
        (rest = [] ∨ ∃ h', h'.callable ∧ h' ≠ .rosSignal ∧ rest = [.handler h'])) ∧
      ((sigRun Signals.init ops).signalChain SIGINT = some .rosSignal →
        ∀ fuel, rosSignalCalls (sigRun Signals.init ops).signalChain SIGINT fuel = none) :=
  ⟨Or.inl rfl, register_signals_chain_law _ SIGINT (Or.inl rfl)⟩

/-- Two `register_signals` calls: `_ros_signal` becomes its own predecessor. -/
theorem registerSignals_twice :
    (registerSignals (registerSignals Signals.init)).signalChain SIGINT = some .rosSignal ∧
      (registerSignals (registerSignals Signals.init)).signalChain SIGTERM = some .rosSignal ∧
      ∀ fuel, rosSignalCalls (registerSignals (registerSignals Signals.init)).signalChain SIGINT
        fuel = none :=
  have h : (registerSignals (registerSignals Signals.init)).signalChain SIGINT =
      some .rosSignal := by decide
  ⟨h, by decide, rosSignalCalls_selfChained h⟩

end RospyCore
