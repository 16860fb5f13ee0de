import Mathlib
import RospyCore.Shutdown.Order

/-!
# `signal_shutdown` run alone

A thread whose code calls `signal_shutdown(reason)` while nothing else runs, with
`_in_shutdown` and `_shutdown_flag` clear and `_shutdown_lock` free, runs the call to its end:
it sets `_in_shutdown`, calls every client hook, empties the client list, calls every pre hook
with the reason, empties that list, sets `_shutdown_flag`, calls every normal hook, empties the
last list, releases the lock, joins the tracked threads, empties their list and returns
(`signal_shutdown_runs`).  This holds for hooks that return or raise, as long as the
`except Exception` clause of the normal loop catches and reports what a normal hook raises
(an `Exception` whose `str()` works), and as long as the calling thread is not one of the
tracked threads, which `t.join` would raise `RuntimeError` for.

The schedule of the call is given, not assumed: it is a function of the hook lists and the
thread list (`shutdownSchedule`), and the run of exactly that schedule is computed part by part
(`run_start`, `run_loop`, `run_join`, `run_tail`).
-/

namespace RospyCore

/-! ### Single statements -/

section Exec

variable {s g : Core} {t : Nat} {f : Frame} {o : Outcome}

/-- `Core.Exec` is exactly what `Core.execFrame` computes. -/
theorem Core.Exec.execFrame (hx : s.Exec t f g o) : s.execFrame t f = some (g, o) := by
  cases hx
  case joinSelf hu hs =>
    obtain ⟨ha, rfl⟩ := hs
    simp [Core.execFrame, Core.execShutdown, hu, ha]
  all_goals simp [Core.execFrame, Core.execShutdown, Core.execHook, Core.execThread,
    Core.execSignal, *]

theorem Core.Exec.step {rest : List Frame} (hst : s.stack t = f :: rest) (hx : s.Exec t f g o) :
    s.step t .exec = some (g.apply t f rest o) := by
  simp [Core.step, hst, hx.execFrame]

/-- A statement that goes on at `f'`, with the stack it leaves. -/
theorem Core.Exec.step_goto {rest : List Frame} {f' : Frame} (hst : s.stack t = f :: rest)
    (hx : s.Exec t f g (.goto f')) :
    s.step t .exec = some (g.setStack t (f' :: rest)) ∧
      (g.setStack t (f' :: rest)).stack t = f' :: rest := by
  refine ⟨hx.step hst, ?_⟩
  rw [Core.stack_setStack (hx.threads_eq ▸ Core.lt_of_stack_ne_nil (by simp [hst])), if_pos rfl]

/-- A statement that calls `child` from `f'`, with the stack it leaves. -/
theorem Core.Exec.step_call {rest : List Frame} {f' child : Frame} (hst : s.stack t = f :: rest)
    (hx : s.Exec t f g (.call f' child)) :
    s.step t .exec = some (g.setStack t (child :: f' :: rest)) ∧
      (g.setStack t (child :: f' :: rest)).stack t = child :: f' :: rest := by
  refine ⟨hx.step hst, ?_⟩
  rw [Core.stack_setStack (hx.threads_eq ▸ Core.lt_of_stack_ne_nil (by simp [hst])), if_pos rfl]

end Exec

/-- What a hook does: return, or raise. -/
def Completion.act : Completion → Act
  | .ret => .ret
  | .exc e => .raise e

theorem Core.step_act {s : Core} {t : Nat} {rest : List Frame} (hst : s.stack t = .body :: rest)
    (c : Completion) : s.step t c.act = some (s.leave t .body rest c) := by
  cases c <;> simp [Completion.act, Core.step, hst]

theorem releaseLock_zero {lock : Option (Nat × Nat)} (hp : LockPos lock) :
    releaseLock lock 0 = lock := by
  rcases lock with _ | ⟨u, n⟩
  · rfl
  · simp [releaseLock, (hp u n rfl).ne']

/-- A body on top of `f` returns or raises `c`, and `f` goes on at `f'`. -/
theorem Core.step_act_resume {s : Core} {t : Nat} {f f' : Frame} {rest : List Frame}
    (hst : s.stack t = .body :: f :: rest) {c : Completion} (hr : f.resume c = .inl f')
    (hp : LockPos s.shutdownLock) :
    s.step t c.act = some (s.setStack t (f' :: rest)) ∧
      (s.setStack t (f' :: rest)).stack t = f' :: rest := by
  refine ⟨?_, by rw [Core.stack_setStack (Core.lt_of_stack_ne_nil (by simp [hst])), if_pos rfl]⟩
  rw [Core.step_act hst]
  simp [Core.leave, unwind_cons_inl rest hr, Frame.holdsLock, Frame.endEvent, releaseLock_zero hp,
    Core.setStack]

/-- A frame of the module called from a body ends with `c`: the body gets `c`, the lock loses
the level the frame held, and the end is traced. -/
theorem Core.leave_over_body (s : Core) (t : Nat) {f : Frame} (hf : f ≠ .body)
    (rest : List Frame) (c : Completion) :
    s.leave t f (.body :: rest) c =
      { s with
        threads := s.threads.set t (.body :: rest)
        shutdownLock := releaseLock s.shutdownLock (if f.holdsLock then 1 else 0)
        trace := s.trace ++ [.leave f c] } := by
  have he : f.endEvent c = some (.leave f c) := by
    cases f <;> first | exact absurd rfl hf | rfl
  simp [Core.leave, unwind, Frame.resume, he, List.countP_cons]

/-! ### Runs -/

/-- A loop over a list at index `i`, with `a :: rest` left to visit, reads `a` and leaves
`rest`. -/
theorem drop_eq_cons {α : Type} {l rest : List α} {i : Nat} {a : α}
    (h : l.drop i = a :: rest) : l[i]? = some a ∧ l.drop (i + 1) = rest :=
  ⟨by rw [← Nat.add_zero i, ← List.getElem?_drop, h, List.getElem?_cons_zero],
    by rw [← List.tail_drop, h, List.tail_cons]⟩

theorem Core.run_append (s : Core) (as bs : List (Nat × Act)) :
    s.run (as ++ bs) = (s.run as).bind fun s' => s'.run bs := by
  induction as generalizing s with
  | nil => rfl
  | cons ta as ih =>
    simp only [List.cons_append, Core.run]
    cases s.step ta.1 ta.2 <;> simp [ih]

theorem Core.run_cons_step {s s' : Core} {t : Nat} {a : Act} (h : s.step t a = some s')
    (as : List (Nat × Act)) : s.run ((t, a) :: as) = s'.run as := by
  simp [Core.run, h]

/-- A hook that returns, or raises what its list's `except` catches and reports, resumes the
loop. -/
theorem Frame.resume_hook {call : Nat} {r : String} {p : Phase} {i : Nat} {c : Completion}
    (hc : ∀ e, c = .exc e → p.escape e = none) :
    (Frame.signalShutdown call r (.hook p i)).resume c =
      .inl (.signalShutdown call r (.loop p (i + 1))) := by
  cases c with
  | ret => rfl
  | exc e => simp [Frame.resume, hc e rfl]

theorem Core.step_call {s : Core} {t : Nat} {rest : List Frame} (hst : s.stack t = .body :: rest)
    (op : Op) :
    s.step t (.call op) = some ((s.callOp op).1.setStack t ((s.callOp op).2 :: .body :: rest)) ∧
      ((s.callOp op).1.setStack t ((s.callOp op).2 :: .body :: rest)).stack t =
        (s.callOp op).2 :: .body :: rest := by
  have ht : t < s.threads.length := Core.lt_of_stack_ne_nil (by simp [hst])
  refine ⟨by simp [Core.step, hst], ?_⟩
  rw [Core.stack_setStack (by cases op <;> exact ht), if_pos rfl]

theorem Core.threads_set_stack {s : Core} {t : Nat} {st : List Frame} (hst : s.stack t = st)
    (hne : st ≠ []) : s.threads.set t st = s.threads := by
  have ht : t < s.threads.length := Core.lt_of_stack_ne_nil (hst ▸ hne)
  apply List.ext_getElem (by simp)
  intro i h1 h2
  rw [List.getElem_set]
  split
  · subst i hst; simp [Core.stack, List.getD_eq_getElem?_getD, List.getElem?_eq_getElem ht]
  · rfl

/-- Emptying the three lists, one after another, empties them all. -/
theorem update_phases {β : Type} (f : Phase → β) (b : β) :
    Function.update (Function.update (Function.update f .client b) .pre b) .normal b =
      fun _ => b := by
  funext p
  cases p <;> simp

theorem Core.stack_setStack_of {s g : Core} {t : Nat} {f : Frame} {rest : List Frame}
    (hst : s.stack t = f :: rest) (hg : g.threads = s.threads) (st : List Frame) :
    (g.setStack t st).stack t = st := by
  rw [Core.stack_setStack (hg ▸ Core.lt_of_stack_ne_nil (by simp [hst])), if_pos rfl]

/-! ### The parts of a call -/

/-- `signal_shutdown`'s statements up to `_in_shutdown = True`. -/
def startSchedule (t : Nat) (reason : String) : List (Nat × Act) :=
  (t, .call (.signalShutdown reason)) :: List.replicate 4 (t, .exec)

/-- The call starts, finds both flags clear, takes the lock, finds them clear again and sets
`_in_shutdown`. -/
theorem run_start {s : Core} {t : Nat} {rest : List Frame} (hst : s.stack t = .body :: rest)
    (hflag : s.shutdownFlag = false) (hin : s.inShutdown = false)
    (hlock : s.shutdownLock = none) (reason : String) :
    let s' : Core := ({ s with
        inShutdown := true
        shutdownLock := some (t, 1)
        trace := s.trace ++ [.start s.nextCall reason, .setInShutdown s.nextCall false]
        nextCall := s.nextCall + 1 } : Core).setStack t
          (.signalShutdown s.nextCall reason (.loop .client 0) :: .body :: rest)
    s.run (startSchedule t reason) = some s' ∧
      s'.stack t = .signalShutdown s.nextCall reason (.loop .client 0) :: .body :: rest := by
  refine ⟨?_, Core.stack_setStack_of hst rfl _⟩
  have hgo : (s.shutdownFlag || s.inShutdown) = false := by simp [hflag, hin]
  have hacq : acquireLock s.shutdownLock t = some (some (t, 1)) := by rw [hlock]; rfl
  obtain ⟨h1, hst1⟩ := Core.step_call hst (.signalShutdown reason)
  obtain ⟨h2, hst2⟩ := Core.Exec.step_goto hst1 (.startGo hgo)
  obtain ⟨h3, hst3⟩ := Core.Exec.step_goto hst2 (.acquire hacq)
  obtain ⟨h4, hst4⟩ := Core.Exec.step_goto hst3 (.recheckGo hgo)
  obtain ⟨h5, -⟩ := Core.Exec.step_goto hst4 .setInShutdown
  rw [startSchedule, Core.run_cons_step h1, List.replicate_succ, Core.run_cons_step h2,
    List.replicate_succ, Core.run_cons_step h3, List.replicate_succ, Core.run_cons_step h4,
    List.replicate_succ, Core.run_cons_step h5]
  simp [Core.run, Core.setStack, Core.callOp, Core.callShutdown, List.set_set, hin]

/-- `signal_shutdown`'s loop over the hooks `l` left in its list, each hook ending as `done`
says, then the end of the list and its `del`. -/
def loopSchedule (t : Nat) (done : Nat → Completion) : List Nat → List (Nat × Act)
  | [] => [(t, .exec), (t, .exec)]
  | h :: l => (t, .exec) :: (t, (done h).act) :: loopSchedule t done l

/-- One hook loop: each hook left in the list is called with the loop's argument and its
return or caught exception resumes the loop; at the end of the list the list is emptied. -/
theorem run_loop {t c : Nat} {r : String} {p : Phase} {rest : List Frame}
    {done : Nat → Completion} (l : List Nat) :
    ∀ (s : Core) (i : Nat), s.stack t = .signalShutdown c r (.loop p i) :: .body :: rest →
      (s.hooks p).drop i = l → s.shutdownLock = some (t, 1) →
      (∀ h ∈ l, ∀ e, done h = .exc e → p.escape e = none) →
      let s' : Core := ({ s with
        hooks := Function.update s.hooks p []
        consumed := Function.update s.consumed p 0
        trace := s.trace ++
          l.map (fun h => .invoke h p (p.arg r) (some c) s.inShutdown s.shutdownFlag) ++
          [.loopEnd c p, .drain c p (s.hooks p)] } : Core).setStack t
            (.signalShutdown c r p.next :: .body :: rest)
      s.run (loopSchedule t done l) = some s' ∧
        s'.stack t = .signalShutdown c r p.next :: .body :: rest := by
  induction l with
  | nil =>
    intro s i hst hl _ _
    refine ⟨?_, Core.stack_setStack_of hst rfl _⟩
    have hnone : (s.hooks p)[i]? = none :=
      List.getElem?_eq_none (List.drop_eq_nil_iff.mp hl)
    obtain ⟨h1, hst1⟩ := Core.Exec.step_goto hst (.loopEnd hnone)
    obtain ⟨h2, -⟩ := Core.Exec.step_goto hst1 .del
    rw [loopSchedule, Core.run_cons_step h1, Core.run_cons_step h2]
    simp [Core.run, Core.setStack, List.set_set]
  | cons h l ih =>
    intro s i hst hl hlock hdone
    refine ⟨?_, Core.stack_setStack_of hst rfl _⟩
    obtain ⟨hh, hl'⟩ := drop_eq_cons hl
    obtain ⟨h1, hst1⟩ := Core.Exec.step_call hst (.invoke hh)
    obtain ⟨h2, hst2⟩ := Core.step_act_resume hst1
      (Frame.resume_hook (hdone h (List.mem_cons_self _ _)))
      (by simp [Core.setStack, hlock, LockPos])
    rw [loopSchedule, Core.run_cons_step h1, Core.run_cons_step h2,
      (ih _ (i + 1) hst2 (by simpa [Core.setStack] using hl') (by simp [Core.setStack, hlock])
        fun h' hm => hdone h' (List.mem_cons_of_mem _ hm)).1]
    simp [Core.setStack, List.set_set]

/-- The join loop over the threads `l` left in its copy, then its end. -/
def joinSchedule (t : Nat) : List Nat → List (Nat × Act)
  | [] => [(t, .exec)]
  | _ :: l => (t, .exec) :: joinSchedule t l

/-- The join loop passes every thread of its copy that is not the caller's. -/
theorem run_join {t c : Nat} {r : String} {rest : List Frame} {threads : List Nat}
    (l : List Nat) :
    ∀ (s : Core) (i : Nat), s.stack t = .signalShutdown c r (.join threads i) :: .body :: rest →
      threads.drop i = l → t ∉ l →
      s.run (joinSchedule t l) =
        some (s.setStack t (.signalShutdown c r .delThreads :: .body :: rest)) ∧
      (s.setStack t (.signalShutdown c r .delThreads :: .body :: rest)).stack t =
        .signalShutdown c r .delThreads :: .body :: rest := by
  induction l with
  | nil =>
    intro s i hst hl _
    refine ⟨?_, Core.stack_setStack_of hst rfl _⟩
    obtain ⟨h1, -⟩ := Core.Exec.step_goto hst
      (.joinEnd (List.getElem?_eq_none (List.drop_eq_nil_iff.mp hl)))
    rw [joinSchedule, Core.run_cons_step h1]
    rfl
  | cons u l ih =>
    intro s i hst hl ht
    refine ⟨?_, Core.stack_setStack_of hst rfl _⟩
    obtain ⟨hu, hl'⟩ := drop_eq_cons hl
    obtain ⟨h1, hst1⟩ := Core.Exec.step_goto hst
      (.join hu fun h => ht (h.2 ▸ List.mem_cons_self _ _))
    rw [joinSchedule, Core.run_cons_step h1,
      (ih _ (i + 1) hst1 hl' fun h => ht (List.mem_cons_of_mem _ h)).1]
    simp [Core.setStack, List.set_set]

/-- `signal_shutdown` after its loops: release the lock, join the tracked threads, empty their
list, sleep and return. -/
def tailSchedule (t : Nat) (threads : List Nat) : List (Nat × Act) :=
  (t, .exec) :: (joinSchedule t threads ++ [(t, .exec), (t, .exec)])

/-- After the loops: the lock is released, the threads joined, their list emptied, and the call
returns. -/
theorem run_tail {s : Core} {t c : Nat} {r : String} {rest : List Frame}
    (hst : s.stack t = .signalShutdown c r .snapshot :: .body :: rest)
    (hlock : s.shutdownLock = some (t, 1)) (threads : List Nat)
    (hthreads : s.shutdownThreads = threads) (hthr : t ∉ threads) :
    s.run (tailSchedule t threads) = some (({ s with
        shutdownLock := none
        shutdownThreads := []
        trace := s.trace ++ [.leave (.signalShutdown c r .sleep) .ret] } : Core).setStack t
          (.body :: rest)) := by
  obtain ⟨h1, hst1⟩ := Core.Exec.step_goto hst .snapshot
  subst hthreads
  obtain ⟨hj, hstj⟩ := run_join s.shutdownThreads _ 0 hst1 rfl hthr
  obtain ⟨h2, hst2⟩ := Core.Exec.step_goto hstj .delThreads
  have h3 := Core.Exec.step hst2 .sleep
  rw [tailSchedule, Core.run_cons_step h1, Core.run_append, hj, Option.some_bind,
    Core.run_cons_step h2, Core.run_cons_step h3]
  simp [Core.run, Core.apply, Core.leave_over_body, Core.setStack, List.set_set,
    Frame.holdsLock, hlock, releaseLock]

/-! ### The whole call -/

/-- The events of one loop of `signal_shutdown` run alone over `hooks`: each hook called, the
end of the list, the list emptied. -/
def loopTrace (call : Nat) (reason : String) (phase : Phase) (hooks : List Nat) : List Event :=
  phaseCalls call reason phase hooks ++ [.loopEnd call phase, .drain call phase hooks]

/-- The events of a `signal_shutdown` call run alone. -/
def shutdownTrace (call : Nat) (reason : String) (hooks : Phase → List Nat) : List Event :=
  .start call reason :: .setInShutdown call false ::
    (loopTrace call reason .client (hooks .client) ++ loopTrace call reason .pre (hooks .pre) ++
      .setFlag call :: (loopTrace call reason .normal (hooks .normal) ++
        [.leave (.signalShutdown call reason .sleep) .ret]))

/-- A `signal_shutdown(reason)` call that thread `t` makes and runs alone, each hook ending as
`done` says. -/
def shutdownSchedule (s : Core) (t : Nat) (reason : String) (done : Nat → Completion) :
    List (Nat × Act) :=
  startSchedule t reason ++ (loopSchedule t done (s.hooks .client) ++
    (loopSchedule t done (s.hooks .pre) ++ (t, .exec) :: (loopSchedule t done (s.hooks .normal) ++
      tailSchedule t s.shutdownThreads)))

/-- `signal_shutdown(reason)`, called by thread `t` and run alone with both flags clear and the
lock free, runs to its end whatever the hook lists and the tracked threads, as long as `t` is
not tracked and the normal loop's `except Exception` catches and reports what each normal hook
raises: both flags are set, the three
lists and the tracked threads emptied, the lock free again, and the call's events are its start,
`_in_shutdown = True`, the three loops over the whole lists and its return. -/
theorem signal_shutdown_runs {s : Core} {t : Nat} {rest : List Frame}
    (hst : s.stack t = .body :: rest) (hflag : s.shutdownFlag = false)
    (hin : s.inShutdown = false) (hlock : s.shutdownLock = none) (hthr : t ∉ s.shutdownThreads)
    (reason : String) (done : Nat → Completion)
    (hdone : ∀ h ∈ s.hooks .normal, ∀ e, done h = .exc e → Phase.normal.escape e = none) :
    s.run (shutdownSchedule s t reason done) = some { s with
      shutdownFlag := true
      inShutdown := true
      hooks := fun _ => []
      shutdownThreads := []
      trace := s.trace ++ shutdownTrace s.nextCall reason s.hooks
      consumed := fun _ => 0
      nextCall := s.nextCall + 1 } := by
  have hall : ∀ p, p ≠ .normal →
      ∀ h ∈ s.hooks p, ∀ e, done h = .exc e → p.escape e = none :=
    fun p hp _ _ _ _ => by cases p <;> first | rfl | exact absurd rfl hp
  obtain ⟨h1, hst1⟩ := run_start hst hflag hin hlock reason
  obtain ⟨h2, hst2⟩ := run_loop (s.hooks .client) _ 0 hst1 rfl rfl (hall .client (by decide))
  obtain ⟨h3, hst3⟩ := run_loop (s.hooks .pre) _ 0 hst2 rfl rfl (hall .pre (by decide))
  obtain ⟨h4, hst4⟩ := Core.Exec.step_goto hst3 .setFlag
  obtain ⟨h5, hst5⟩ := run_loop (s.hooks .normal) _ 0 hst4 rfl rfl hdone
  have h6 := run_tail hst5 rfl s.shutdownThreads rfl hthr
  rw [shutdownSchedule, Core.run_append, h1, Option.some_bind, Core.run_append, h2,
    Option.some_bind, Core.run_append, h3, Option.some_bind, Core.run_cons_step h4,
    Core.run_append, h5, Option.some_bind, h6]
  simp [Core.setStack, List.set_set, shutdownTrace, loopTrace, phaseCalls, hflag, hlock,
    update_phases, Core.threads_set_stack hst (List.cons_ne_nil _ _)]
  rfl

/-- Thread 0 registers a client, a pre and a normal hook. -/
def threeHooks : List (Nat × Act) :=
  [(0, .call (addClientShutdownHook true)), (0, .exec), (0, .exec), (0, .exec),
   (0, .call (addPreshutdownHook true)), (0, .exec), (0, .exec), (0, .exec),
   (0, .call (addShutdownHook true)), (0, .exec), (0, .exec), (0, .exec)]

/-- The state after `threeHooks`. -/
def threeHooksState : Core := (Core.init.run threeHooks).getD Core.init

/-- The client hook raises `KeyboardInterrupt`, which its bare `except:` catches; the shutdown
hook raises an `Exception`, which `except Exception` catches and reports; the pre hook
returns. -/
def raisingHooks (h : Nat) : Completion :=
  if h = 0 then .exc .keyboardInterrupt else if h = 2 then .exc .error else .ret

theorem signal_shutdown_runs_three :
    (threeHooksState.stack 0 = [.body] ∧ threeHooksState.shutdownFlag = false ∧
      threeHooksState.inShutdown = false ∧ threeHooksState.shutdownLock = none ∧
      0 ∉ threeHooksState.shutdownThreads ∧
      ∀ h ∈ threeHooksState.hooks .normal, ∀ e, raisingHooks h = .exc e →
        Phase.normal.escape e = none) ∧
    threeHooksState.run (shutdownSchedule threeHooksState 0 "done" raisingHooks) =
      some { threeHooksState with
        shutdownFlag := true
        inShutdown := true
        hooks := fun _ => []
        shutdownThreads := []
        trace := threeHooksState.trace ++
          shutdownTrace threeHooksState.nextCall "done" threeHooksState.hooks
        consumed := fun _ => 0
        nextCall := threeHooksState.nextCall + 1 } := by
  have hnormal : threeHooksState.hooks .normal = [2] := rfl
  have hdone : ∀ h ∈ threeHooksState.hooks .normal, ∀ e, raisingHooks h = .exc e →
      Phase.normal.escape e = none := by
    simp [hnormal, raisingHooks, Phase.escape, Exc.isException]
  exact ⟨⟨rfl, rfl, rfl, rfl, by decide, hdone⟩,
    @signal_shutdown_runs threeHooksState 0 [] rfl rfl rfl rfl (by decide) "done" raisingHooks
      hdone⟩

end RospyCore
