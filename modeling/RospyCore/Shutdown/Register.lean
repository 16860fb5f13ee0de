import Mathlib
import RospyCore.Shutdown.Complete

/-!
# `_add_shutdown_thread` run alone

`_add_shutdown_thread(u)` called by a thread while nothing else runs, with `_shutdown_flag`
clear and `_shutdown_lock` free or already the caller's, drops every thread of
`_shutdown_threads` that has ended, keeps the others in their order, appends `u`, and returns
with the lock as it found it (`add_shutdown_thread_runs`).  The pruning loop walks a copy of the
list and removes from the list itself; every `remove(other)` finds its thread because the list
is always the visited part of the copy, filtered to the live threads, followed by the part not
yet visited (`run_prune`).
-/

namespace RospyCore

/-! ### The lock and the live threads -/

/-- `_shutdown_lock` is free, or held by thread `t`, which can take it again (it is an
`RLock`). -/
def LockFreeFor (lock : Option (Nat × Nat)) (t : Nat) : Prop :=
  lock = none ∨ ∃ n, lock = some (t, n + 1)

/-- `with _shutdown_lock:` entered and left gives the lock back as it was. -/
theorem LockFreeFor.acquire {lock : Option (Nat × Nat)} {t : Nat} (h : LockFreeFor lock t) :
    ∃ l, acquireLock lock t = some l ∧ releaseLock l 1 = lock := by
  rcases h with rfl | ⟨n, rfl⟩
  · exact ⟨_, rfl, rfl⟩
  · exact ⟨some (t, n + 2), by simp [acquireLock], by simp [releaseLock]⟩

@[simp] theorem Core.alive_setStack (s : Core) (t : Nat) (st : List Frame) :
    (s.setStack t st).alive = s.alive := by
  funext u
  simp [Core.alive, Core.setStack]

@[simp] theorem Core.alive_shutdownThreads (s : Core) (l : List Nat) :
    ({ s with shutdownThreads := l } : Core).alive = s.alive := rfl

@[simp] theorem Core.alive_shutdownLock (s : Core) (l : Option (Nat × Nat)) :
    ({ s with shutdownLock := l } : Core).alive = s.alive := rfl

/-! ### `_add_shutdown_thread` -/

/-- `_add_shutdown_thread(u)`'s statements with `_shutdown_flag` clear, for a list of `n`
threads: the flag test, the lock and the copy, one turn of the pruning loop per thread, and the
append. -/
def addThreadSchedule (t u n : Nat) : List (Nat × Act) :=
  (t, .call (.addShutdownThread u)) :: (t, .exec) :: (t, .exec) ::
    (List.replicate n (t, .exec) ++ [(t, .exec)])

/-- The pruning loop from index `i` of the copy, with `l` left to visit: each turn keeps a live
thread or removes an ended one, and the list stays the visited part of the copy, filtered to the
live threads, followed by the part not yet visited. -/
theorem run_prune {t u : Nat} {rest : List Frame} (copy l : List Nat) :
    ∀ (s : Core) (i : Nat), s.stack t = .addShutdownThread u (.prune copy i) :: .body :: rest →
      copy.drop i = l → i ≤ copy.length →
      s.shutdownThreads = (copy.take i).filter s.alive ++ l →
      let s' : Core := ({ s with shutdownThreads := copy.filter s.alive } : Core).setStack t
        (.addShutdownThread u (.prune copy copy.length) :: .body :: rest)
      s.run (List.replicate l.length (t, .exec)) = some s' ∧
        s'.stack t = .addShutdownThread u (.prune copy copy.length) :: .body :: rest := by
  induction l with
  | nil =>
    intro s i hst hl hi hthr
    refine ⟨?_, Core.stack_setStack_of hst rfl _⟩
    obtain rfl : i = copy.length := le_antisymm hi (List.drop_eq_nil_iff.mp hl)
    rw [List.take_length, List.append_nil] at hthr
    simp only [Core.setStack, ← hthr, Core.threads_set_stack hst (List.cons_ne_nil _ _)]
    rfl
  | cons o l ih =>
    intro s i hst hl hi hthr
    refine ⟨?_, Core.stack_setStack_of hst rfl _⟩
    obtain ⟨ho, hl'⟩ := drop_eq_cons hl
    have hi' : i + 1 ≤ copy.length := by
      have := congrArg List.length hl
      simp only [List.length_drop, List.length_cons] at this
      omega
    have htake : copy.take (i + 1) = copy.take i ++ [o] := by rw [List.take_succ, ho]; rfl
    by_cases halive : s.alive o
    case pos =>
      obtain ⟨h1, hst1⟩ := Core.Exec.step_goto hst (.threadKeep ho halive)
      rw [List.length_cons, List.replicate_succ, Core.run_cons_step h1,
        (ih _ (i + 1) hst1 hl' hi' (by
          simp only [Core.alive_setStack]; simp [Core.setStack, hthr, htake, halive])).1]
      simp only [Core.alive_setStack]
      simp [Core.setStack, List.set_set]
    case neg =>
      have hnot : o ∉ (copy.take i).filter s.alive := by simp [halive]
      obtain ⟨h1, hst1⟩ := Core.Exec.step_goto hst
        (.threadRemove ho (by simpa using halive) (by simp [hthr]))
      rw [List.length_cons, List.replicate_succ, Core.run_cons_step h1,
        (ih _ (i + 1) hst1 hl' hi' (by
          simp only [Core.alive_setStack, Core.alive_shutdownThreads]
          simp [Core.setStack, hthr, htake, halive, List.erase_append_right _ hnot])).1]
      simp only [Core.alive_setStack, Core.alive_shutdownThreads]
      simp [Core.setStack, List.set_set]

/-- `_add_shutdown_thread(u)` with `_shutdown_flag` clear and the lock free or the caller's
returns after dropping the ended threads from `_shutdown_threads`, keeping the live ones in
their order, and appending `u`; the lock is left as it was. -/
theorem add_shutdown_thread_runs {s : Core} {t : Nat} {rest : List Frame}
    (hst : s.stack t = .body :: rest) (hflag : s.shutdownFlag = false)
    (hlock : LockFreeFor s.shutdownLock t) (u : Nat) :
    s.run (addThreadSchedule t u s.shutdownThreads.length) = some { s with
      shutdownThreads := s.shutdownThreads.filter s.alive ++ [u]
      trace := s.trace ++
        [.leave (.addShutdownThread u (.prune s.shutdownThreads s.shutdownThreads.length))
          .ret] } := by
  obtain ⟨l, hacq, hrel⟩ := hlock.acquire
  obtain ⟨h1, hst1⟩ := Core.step_call hst (.addShutdownThread u)
  obtain ⟨h2, hst2⟩ := Core.Exec.step_goto hst1 (.threadGo hflag)
  obtain ⟨h3, hst3⟩ := Core.Exec.step_goto hst2 (.threadAcquire hacq)
  obtain ⟨h4, hst4⟩ := run_prune s.shutdownThreads s.shutdownThreads _ 0 hst3 rfl
    (Nat.zero_le _) (by simp [Core.setStack, Core.callOp])
  have h5 := Core.Exec.step hst4 (.threadAppend (List.getElem?_eq_none (le_refl _)))
  rw [addThreadSchedule, Core.run_cons_step h1, Core.run_cons_step h2, Core.run_cons_step h3,
    Core.run_append, h4, Option.some_bind, Core.run_cons_step h5]
  simp only [Core.alive_setStack, Core.alive_shutdownLock]
  simp [Core.run, Core.apply, Core.leave_over_body, Core.setStack, Core.callOp, List.set_set,
    Frame.holdsLock, hrel, Core.threads_set_stack hst]

/-- Thread 0 starts threads 1 and 2 and registers both; then thread 1 ends. -/
def oneEnded : List (Nat × Act) :=
  (0, .spawn) :: (0, .spawn) :: addThreadSchedule 0 1 0 ++ addThreadSchedule 0 2 1 ++
    [(1, .ret), (1, .exit)]

/-- The state after `oneEnded`: `_shutdown_threads` is `[1, 2]` and thread 1 has ended. -/
def oneEndedState : Core := (Core.init.run oneEnded).getD Core.init

theorem add_shutdown_thread_runs_pruned :
    (oneEndedState.stack 0 = [.body] ∧ oneEndedState.shutdownFlag = false ∧
      LockFreeFor oneEndedState.shutdownLock 0) ∧
    oneEndedState.run (addThreadSchedule 0 3 oneEndedState.shutdownThreads.length) =
      some { oneEndedState with
        shutdownThreads := oneEndedState.shutdownThreads.filter oneEndedState.alive ++ [3]
        trace := oneEndedState.trace ++
          [.leave (.addShutdownThread 3
            (.prune oneEndedState.shutdownThreads oneEndedState.shutdownThreads.length)) .ret] } :=
  ⟨⟨rfl, rfl, Or.inl rfl⟩,
    @add_shutdown_thread_runs oneEndedState 0 [] rfl rfl (Or.inl rfl) 3⟩

example : oneEndedState.shutdownThreads = [1, 2] ∧
    oneEndedState.shutdownThreads.filter oneEndedState.alive ++ [3] = [2, 3] := by decide

end RospyCore
