import Mathlib
import RospyCore.Shutdown.Hooks
import RospyCore.Shutdown.Late

/-!
# The shutdown contract

Over every interleaving of hook registrations, `_add_shutdown_thread` calls and
`signal_shutdown` calls, made from any thread, from running hooks, or from `_ros_signal`
re-entering `signal_shutdown` on the main thread while it holds the reentrant lock:

* the pair `(is_shutdown_requested(), is_shutdown())` only moves from `(False, False)` to
  `(True, False)` to `(True, True)`, one flag at a time;
* no registered hook is called twice, whether from its list or at once by its registration
  (each registration call holds a hook of its own);
* a `signal_shutdown` call that starts after some call has ended calls no hook.
-/

namespace RospyCore

theorem shutdown_contract {s : Core} (hs : s.Reachable) :
    (s.isShutdown = true → s.isShutdownRequested = true) ∧
    (∀ t a s', s.step t a = some s' →
      (s.isShutdownRequested = true → s'.isShutdownRequested = true) ∧
      (s.isShutdown = true → s'.isShutdown = true) ∧
      (s'.isShutdown = true → s.isShutdownRequested = true)) ∧
    s.invoked.Nodup ∧
    ∀ c, StartedLate s.trace c → ∀ e ∈ s.trace, e.invokedBy ≠ some c := by
  refine ⟨hs.lifecycle.flag_inShutdown, fun t a s' h => ?_, hs.invoked_nodup,
    fun c hc => (hs.lateOk c hc).2⟩
  have hm := Core.moves_of_step h
  exact ⟨hm.inShutdown_mono, hm.shutdownFlag_mono, hm.inShutdown_of_flag hs.lifecycle⟩

/-- Thread 0 registers a client hook and a shutdown hook and calls `signal_shutdown("done")`,
which runs to its end and calls both; then it calls `signal_shutdown("again")`, which returns
at once, and registers one more client hook, which is called at once. -/
def shutdownTwice : List (Nat × Act) :=
  [(0, .call (addClientShutdownHook true)), (0, .exec), (0, .exec), (0, .exec),
    (0, .call (addShutdownHook true)), (0, .exec), (0, .exec), (0, .exec),
    (0, .call (.signalShutdown "done"))] ++ List.replicate 5 (0, .exec) ++ [(0, .ret)] ++
    List.replicate 6 (0, .exec) ++ [(0, .ret)] ++ List.replicate 6 (0, .exec) ++
    [(0, .call (.signalShutdown "again")), (0, .exec),
      (0, .call (addClientShutdownHook true)), (0, .exec), (0, .ret)]

def shutdownTwiceState : Core := (Core.init.run shutdownTwice).getD Core.init

theorem shutdown_contract_twice :
    (shutdownTwiceState.isShutdown = true ∧ shutdownTwiceState.invoked = [0, 1, 2] ∧
      StartedLate shutdownTwiceState.trace 1) ∧
    (shutdownTwiceState.isShutdown = true → shutdownTwiceState.isShutdownRequested = true) ∧
    (∀ t a s', shutdownTwiceState.step t a = some s' →
      (shutdownTwiceState.isShutdownRequested = true → s'.isShutdownRequested = true) ∧
      (shutdownTwiceState.isShutdown = true → s'.isShutdown = true) ∧
      (s'.isShutdown = true → shutdownTwiceState.isShutdownRequested = true)) ∧
    shutdownTwiceState.invoked.Nodup ∧
    ∀ c, StartedLate shutdownTwiceState.trace c →
      ∀ e ∈ shutdownTwiceState.trace, e.invokedBy ≠ some c :=
  ⟨⟨by decide, by decide, _, _, (List.take_append_drop 14 _).symm, by decide, "again", by decide⟩,
    shutdown_contract (@Core.Reachable.run _ _ .init shutdownTwice (by rfl))⟩

end RospyCore
