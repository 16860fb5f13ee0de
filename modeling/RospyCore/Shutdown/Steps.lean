import Mathlib
import RospyCore.Shutdown.Machine

/-!
# What one step does

A step changes at most one thread's stack, in one of a few ways (`Core.Moves`): the top
frame runs a statement, `_ros_signal` tests its previous handler, a body calls into the
module, returns or raises, a signal pushes `_ros_signal`, or a thread starts or ends.
`Core.moves_of_step` says this once; the invariants of the following modules are proved
from it and never unfold `Core.step`.

Unwinding ends a prefix of the frames below the ending one and resumes the next
(`unwind_filterMap`, `unwind_countP`, `mem_unwind`): what a frame keeps when it resumes is
kept by the whole stack.
-/

namespace RospyCore

/-! ### Stacks -/

theorem Core.lt_of_stack_ne_nil {s : Core} {t : Nat} (h : s.stack t ≠ []) :
    t < s.threads.length := by
  by_contra hn
  exact h (by simp [Core.stack, List.getD_eq_getElem?_getD, List.getElem?_eq_none (not_lt.mp hn)])

theorem Core.stack_setStack {s : Core} {t : Nat} (ht : t < s.threads.length)
    (st : List Frame) (u : Nat) :
    (s.setStack t st).stack u = if u = t then st else s.stack u := by
  simp only [Core.stack, Core.setStack, List.getD_eq_getElem?_getD, List.getElem?_set]
  by_cases hu : u = t
  · subst hu; simp [ht]
  · simp [hu, Ne.symm hu]

@[simp] theorem Core.setStack_threads_length (s : Core) (t : Nat) (st : List Frame) :
    (s.setStack t st).threads.length = s.threads.length := by
  simp [Core.setStack]

theorem Core.stack_spawn (s : Core) (u : Nat) :
    ({ s with threads := s.threads ++ [[.body]] } : Core).stack u =
      if u = s.threads.length then [.body] else s.stack u := by
  simp only [Core.stack, List.getD_eq_getElem?_getD, List.getElem?_append]
  split_ifs with h1 h2 h2
  · omega
  · rfl
  · subst h2; simp
  · rw [List.getElem?_eq_none (by simp; omega), List.getElem?_eq_none (by omega)]

/-! ### Unwinding -/

@[simp] theorem unwind_nil (c : Completion) : unwind [] c = ([], []) := rfl

theorem unwind_cons_inl {f f' : Frame} {c : Completion} (fs : List Frame)
    (h : f.resume c = .inl f') : unwind (f :: fs) c = (f' :: fs, []) := by
  simp [unwind, h]

theorem unwind_cons_inr {f : Frame} {c c' : Completion} (fs : List Frame)
    (h : f.resume c = .inr c') :
    unwind (f :: fs) c = ((unwind fs c').1, (f, c') :: (unwind fs c').2) := by
  simp [unwind, h]

/-- A frame of the stack after unwinding is one of the old frames, or a frame resumed. -/
theorem mem_unwind {st : List Frame} {c : Completion} {f : Frame}
    (h : f ∈ (unwind st c).1) : f ∈ st ∨ ∃ g ∈ st, ∃ c', g.resume c' = .inl f := by
  induction st generalizing c with
  | nil => simp at h
  | cons g fs ih =>
    rcases hr : g.resume c with g' | c'
    · rw [unwind_cons_inl fs hr] at h
      rcases List.mem_cons.mp h with rfl | h
      · exact .inr ⟨g, List.mem_cons_self _ _, c, hr⟩
      · exact .inl (List.mem_cons_of_mem _ h)
    · rw [unwind_cons_inr fs hr] at h
      rcases ih h with h | ⟨g', hg', c'', h'⟩
      · exact .inl (List.mem_cons_of_mem _ h)
      · exact .inr ⟨g', List.mem_cons_of_mem _ hg', c'', h'⟩

/-- A frame that ends while unwinding is one of the old frames. -/
theorem mem_unwind_ended {st : List Frame} {c : Completion} {e : Frame × Completion}
    (h : e ∈ (unwind st c).2) : e.1 ∈ st := by
  induction st generalizing c with
  | nil => simp at h
  | cons g fs ih =>
    rcases hr : g.resume c with g' | c'
    · simp [unwind_cons_inl fs hr] at h
    · rw [unwind_cons_inr fs hr] at h
      rcases List.mem_cons.mp h with rfl | h
      · exact List.mem_cons_self _ _
      · exact List.mem_cons_of_mem _ (ih h)

section Kept

variable {β : Type} (F : Frame → Option β)
  (hF : ∀ g c g', Frame.resume g c = .inl g' → F g' = F g)
include hF

/-- What a resumed frame keeps, the stack keeps: the ended frames and the stack left hold
together what the stack held. -/
theorem unwind_filterMap (st : List Frame) (c : Completion) :
    (unwind st c).2.filterMap (fun e => F e.1) ++ (unwind st c).1.filterMap F =
      st.filterMap F := by
  induction st generalizing c with
  | nil => rfl
  | cons g fs ih =>
    rcases hr : g.resume c with g' | c'
    · simp [unwind_cons_inl fs hr, List.filterMap_cons, hF g c g' hr]
    · rw [unwind_cons_inr fs hr, List.filterMap_cons, List.filterMap_cons]
      cases F g <;> simp [ih]

end Kept

theorem unwind_countP (p : Frame → Bool) (hp : ∀ g c g', g.resume c = .inl g' → p g' = p g)
    (st : List Frame) (c : Completion) :
    (unwind st c).2.countP (fun e => p e.1) + (unwind st c).1.countP p = st.countP p := by
  induction st generalizing c with
  | nil => rfl
  | cons g fs ih =>
    rcases hr : g.resume c with g' | c'
    · simp [unwind_cons_inl fs hr, List.countP_cons, hp g c g' hr]
    · rw [unwind_cons_inr fs hr]
      simp only [List.countP_cons]
      have := ih c'
      omega

/-! ### The stack a step leaves -/

/-- The stack of the acting thread after its top frame's statement, over `rest`. -/
def Outcome.stackAfter : Outcome → List Frame → List Frame
  | .goto f, rest => f :: rest
  | .call f child, rest => child :: f :: rest
  | .done c, rest => (unwind rest c).1

theorem Core.stack_leave {s : Core} {t : Nat} (ht : t < s.threads.length) (top : Frame)
    (rest : List Frame) (c : Completion) (u : Nat) :
    (s.leave t top rest c).stack u = if u = t then (unwind rest c).1 else s.stack u :=
  Core.stack_setStack ht _ u

theorem Core.stack_apply {s : Core} {t : Nat} (ht : t < s.threads.length) (top : Frame)
    (rest : List Frame) (o : Outcome) (u : Nat) :
    (s.apply t top rest o).stack u = if u = t then o.stackAfter rest else s.stack u := by
  cases o <;> exact Core.stack_setStack ht _ u

@[simp] theorem Core.apply_threads_length (s : Core) (t : Nat) (top : Frame) (rest : List Frame)
    (o : Outcome) : (s.apply t top rest o).threads.length = s.threads.length := by
  cases o <;> simp [Core.apply, Core.leave, Core.setStack]

/-! ### Statements, by cases -/

section Exec

variable (s : Core) (t : Nat)

/-- The statements of the module's frames, one constructor each, with the guard that selects
it: what `Core.execFrame` computes, laid out so that a proof takes it apart by `cases`. -/
inductive Core.Exec : Frame → Core → Outcome → Prop
  | startReturn {call : Nat} {r : String} : (s.shutdownFlag || s.inShutdown) = true →
      Core.Exec (.signalShutdown call r .start) s (.done .ret)
  | startGo {call : Nat} {r : String} : (s.shutdownFlag || s.inShutdown) = false →
      Core.Exec (.signalShutdown call r .start) s (.goto (.signalShutdown call r .acquire))
  | acquire {call : Nat} {r : String} {l : Option (Nat × Nat)} :
      acquireLock s.shutdownLock t = some l →
      Core.Exec (.signalShutdown call r .acquire) { s with shutdownLock := l }
        (.goto (.signalShutdown call r .recheck))
  | recheckReturn {call : Nat} {r : String} : (s.shutdownFlag || s.inShutdown) = true →
      Core.Exec (.signalShutdown call r .recheck) s (.done .ret)
  | recheckGo {call : Nat} {r : String} : (s.shutdownFlag || s.inShutdown) = false →
      Core.Exec (.signalShutdown call r .recheck) s (.goto (.signalShutdown call r .setInShutdown))
  | setInShutdown {call : Nat} {r : String} :
      Core.Exec (.signalShutdown call r .setInShutdown)
        { s with inShutdown := true, trace := s.trace ++ [.setInShutdown call s.inShutdown] }
        (.goto (.signalShutdown call r (.loop .client 0)))
  | invoke {call : Nat} {r : String} {phase : Phase} {i h : Nat} : (s.hooks phase)[i]? = some h →
      Core.Exec (.signalShutdown call r (.loop phase i))
        { s with
          trace := s.trace ++
            [.invoke h phase (phase.arg r) (some call) s.inShutdown s.shutdownFlag]
          consumed := Function.update s.consumed phase (i + 1) }
        (.call (.signalShutdown call r (.hook phase i)) .body)
  | loopEnd {call : Nat} {r : String} {phase : Phase} {i : Nat} : (s.hooks phase)[i]? = none →
      Core.Exec (.signalShutdown call r (.loop phase i))
        { s with trace := s.trace ++ [.loopEnd call phase] }
        (.goto (.signalShutdown call r (.del phase)))
  | del {call : Nat} {r : String} {phase : Phase} :
      Core.Exec (.signalShutdown call r (.del phase))
        { s with
          hooks := Function.update s.hooks phase []
          consumed := Function.update s.consumed phase 0
          trace := s.trace ++ [.drain call phase (s.hooks phase)] }
        (.goto (.signalShutdown call r phase.next))
  | setFlag {call : Nat} {r : String} :
      Core.Exec (.signalShutdown call r .setFlag)
        { s with shutdownFlag := true, trace := s.trace ++ [.setFlag call] }
        (.goto (.signalShutdown call r (.loop .normal 0)))
  | snapshot {call : Nat} {r : String} :
      Core.Exec (.signalShutdown call r .snapshot)
        { s with shutdownLock := releaseLock s.shutdownLock 1 }
        (.goto (.signalShutdown call r (.join s.shutdownThreads 0)))
  | joinSelf {call : Nat} {r : String} {threads : List Nat} {i u : Nat} :
      threads[i]? = some u → s.alive u ∧ u = t →
      Core.Exec (.signalShutdown call r (.join threads i)) s (.done (.exc .runtimeError))
  | join {call : Nat} {r : String} {threads : List Nat} {i u : Nat} :
      threads[i]? = some u → ¬(s.alive u ∧ u = t) →
      Core.Exec (.signalShutdown call r (.join threads i)) s
        (.goto (.signalShutdown call r (.join threads (i + 1))))
  | joinEnd {call : Nat} {r : String} {threads : List Nat} {i : Nat} : threads[i]? = none →
      Core.Exec (.signalShutdown call r (.join threads i)) s
        (.goto (.signalShutdown call r .delThreads))
  | delThreads {call : Nat} {r : String} :
      Core.Exec (.signalShutdown call r .delThreads) { s with shutdownThreads := [] }
        (.goto (.signalShutdown call r .sleep))
  | sleep {call : Nat} {r : String} :
      Core.Exec (.signalShutdown call r .sleep) s (.done .ret)
  | hookTypeError {h : Hook} {phase : Phase} : h.callable = false →
      Core.Exec (.addShutdownHook h phase .start) s (.done (.exc .typeError))
  | hookImmediate {h : Hook} {phase : Phase} : h.callable = true → s.shutdownFlag = true →
      Core.Exec (.addShutdownHook h phase .start)
        { s with trace := s.trace ++
          [.invoke h.id phase (phase.arg "already shutdown") none s.inShutdown s.shutdownFlag] }
        (.call (.addShutdownHook h phase .immediate) .body)
  | hookGo {h : Hook} {phase : Phase} : h.callable = true → s.shutdownFlag = false →
      Core.Exec (.addShutdownHook h phase .start) s (.goto (.addShutdownHook h phase .acquire))
  | hookAcquire {h : Hook} {phase : Phase} {l : Option (Nat × Nat)} :
      acquireLock s.shutdownLock t = some l →
      Core.Exec (.addShutdownHook h phase .acquire) { s with shutdownLock := l }
        (.goto (.addShutdownHook h phase .append))
  | hookAppend {h : Hook} {phase : Phase} :
      Core.Exec (.addShutdownHook h phase .append)
        { s with hooks := Function.update s.hooks phase (s.hooks phase ++ [h.id]) } (.done .ret)
  | threadReturn {u : Nat} : s.shutdownFlag = true →
      Core.Exec (.addShutdownThread u .start) s (.done .ret)
  | threadGo {u : Nat} : s.shutdownFlag = false →
      Core.Exec (.addShutdownThread u .start) s (.goto (.addShutdownThread u .acquire))
  | threadAcquire {u : Nat} {l : Option (Nat × Nat)} : acquireLock s.shutdownLock t = some l →
      Core.Exec (.addShutdownThread u .acquire) { s with shutdownLock := l }
        (.goto (.addShutdownThread u (.prune s.shutdownThreads 0)))
  | threadKeep {u : Nat} {copy : List Nat} {i other : Nat} : copy[i]? = some other →
      s.alive other = true →
      Core.Exec (.addShutdownThread u (.prune copy i)) s
        (.goto (.addShutdownThread u (.prune copy (i + 1))))
  | threadRemove {u : Nat} {copy : List Nat} {i other : Nat} : copy[i]? = some other →
      s.alive other = false → other ∈ s.shutdownThreads →
      Core.Exec (.addShutdownThread u (.prune copy i))
        { s with shutdownThreads := s.shutdownThreads.erase other }
        (.goto (.addShutdownThread u (.prune copy (i + 1))))
  | threadValueError {u : Nat} {copy : List Nat} {i other : Nat} : copy[i]? = some other →
      s.alive other = false → other ∉ s.shutdownThreads →
      Core.Exec (.addShutdownThread u (.prune copy i)) s (.done (.exc .valueError))
  | threadAppend {u : Nat} {copy : List Nat} {i : Nat} : copy[i]? = none →
      Core.Exec (.addShutdownThread u (.prune copy i))
        { s with shutdownThreads := s.shutdownThreads ++ [u] } (.done .ret)
  | signalStart {sig : Nat} :
      Core.Exec (.rosSignal sig .start) (s.callShutdown ("signal-" ++ toString sig)).1
        (.call (.rosSignal sig .shutdown) (s.callShutdown ("signal-" ++ toString sig)).2)

end Exec

theorem Core.exec_of_execShutdown {s g : Core} {t call : Nat} {r : String} {pc : ShutdownPc}
    {o : Outcome} (h : s.execShutdown t call r pc = some (g, o)) :
    s.Exec t (.signalShutdown call r pc) g o := by
  cases pc with
  | start | recheck =>
    simp only [Core.execShutdown, Option.some.injEq, Prod.mk.injEq] at h
    obtain ⟨rfl, rfl⟩ := h
    cases hf : (s.shutdownFlag || s.inShutdown)
    all_goals first
      | exact .startGo hf | exact .startReturn hf | exact .recheckGo hf | exact .recheckReturn hf
  | acquire =>
    obtain ⟨l, hl, h⟩ := Option.map_eq_some'.mp h
    cases h; exact .acquire hl
  | loop phase i =>
    simp only [Core.execShutdown] at h
    split at h <;> cases h
    · exact .invoke ‹_›
    · exact .loopEnd ‹_›
  | join threads i =>
    simp only [Core.execShutdown] at h
    split at h <;> cases h
    · rename_i u hu
      by_cases hs : s.alive u ∧ u = t
      · simp only [if_pos hs]; exact .joinSelf hu hs
      · simp only [if_neg hs]; exact .join hu hs
    · exact .joinEnd ‹_›
  | hook => cases h
  | setInShutdown => cases h; exact .setInShutdown
  | del => cases h; exact .del
  | setFlag => cases h; exact .setFlag
  | snapshot => cases h; exact .snapshot
  | delThreads => cases h; exact .delThreads
  | sleep => cases h; exact .sleep

theorem Core.exec_of_execHook {s g : Core} {t : Nat} {h : Hook} {phase : Phase} {pc : HookPc}
    {o : Outcome} (hx : s.execHook t h phase pc = some (g, o)) :
    s.Exec t (.addShutdownHook h phase pc) g o := by
  cases pc with
  | start =>
    simp only [Core.execHook] at hx
    split at hx
    · rename_i hc; cases hx; exact .hookTypeError (by simpa using hc)
    · rename_i hc
      split at hx <;> cases hx
      · exact .hookImmediate (by simpa using hc) ‹_›
      · rename_i hf; exact .hookGo (by simpa using hc) (by simpa using hf)
  | acquire =>
    obtain ⟨l, hl, hx⟩ := Option.map_eq_some'.mp hx
    cases hx; exact .hookAcquire hl
  | immediate => cases hx
  | append => cases hx; exact .hookAppend

theorem Core.exec_of_execThread {s g : Core} {t u : Nat} {pc : ThreadPc} {o : Outcome}
    (h : s.execThread t u pc = some (g, o)) : s.Exec t (.addShutdownThread u pc) g o := by
  cases pc with
  | start =>
    simp only [Core.execThread, Option.some.injEq, Prod.mk.injEq] at h
    obtain ⟨rfl, rfl⟩ := h
    cases hf : s.shutdownFlag
    · exact .threadGo hf
    · exact .threadReturn hf
  | acquire =>
    obtain ⟨l, hl, h⟩ := Option.map_eq_some'.mp h
    cases h; exact .threadAcquire hl
  | prune copy i =>
    simp only [Core.execThread] at h
    split at h
    · rename_i other ho
      cases ha : s.alive other <;> cases hm : decide (other ∈ s.shutdownThreads) <;>
        simp_all only [decide_eq_true_eq, decide_eq_false_iff_not, if_true, if_false,
          Bool.false_eq_true, Option.some.injEq, Prod.mk.injEq] <;> obtain ⟨rfl, rfl⟩ := h
      · exact .threadValueError ho ha hm
      · exact .threadRemove ho ha hm
      · exact .threadKeep ho ha
      · exact .threadKeep ho ha
    · cases h; exact .threadAppend ‹_›

theorem Core.exec_of_execFrame {s g : Core} {t : Nat} {f : Frame} {o : Outcome}
    (h : s.execFrame t f = some (g, o)) : s.Exec t f g o := by
  cases f with
  | body => cases h
  | signalShutdown => exact Core.exec_of_execShutdown h
  | addShutdownHook => exact Core.exec_of_execHook h
  | addShutdownThread => exact Core.exec_of_execThread h
  | rosSignal sig pc =>
    cases pc <;> cases h
    exact .signalStart

theorem Core.Exec.threads_eq {s g : Core} {t : Nat} {f : Frame} {o : Outcome}
    (h : s.Exec t f g o) : g.threads = s.threads := by
  cases h <;> rfl

theorem Core.Exec.stack_eq {s g : Core} {t : Nat} {f : Frame} {o : Outcome}
    (h : s.Exec t f g o) (u : Nat) : g.stack u = s.stack u := by
  simp only [Core.stack, h.threads_eq]

/-- A property of every stack survives replacing one stack by another that has it. -/
theorem Core.forall_stack_setStack {P : List Frame → Prop} {s g : Core} {t : Nat}
    {st : List Frame} (h : ∀ u, P (s.stack u)) (ht : t < s.threads.length)
    (hg : g.threads = s.threads) (hst : P st) : ∀ u, P ((g.setStack t st).stack u) := by
  intro u
  rw [Core.stack_setStack (hg ▸ ht)]
  split
  · exact hst
  · simpa [Core.stack, hg] using h u

/-! ### Steps -/

/-- The ways a step of thread `t` can take `s` to `s'`. -/
inductive Core.Moves (s : Core) (t : Nat) : Core → Prop
  | exec {f : Frame} {rest : List Frame} {g : Core} {o : Outcome} :
      s.stack t = f :: rest → s.Exec t f g o → Core.Moves s t (g.apply t f rest o)
  | chainCall {sig : Nat} {rest : List Frame} :
      s.stack t = .rosSignal sig .prev :: rest →
      Core.Moves s t (s.setStack t (.body :: .rosSignal sig .prevHandler :: rest))
  | chainLeave {sig : Nat} {rest : List Frame} :
      s.stack t = .rosSignal sig .prev :: rest →
      Core.Moves s t (s.leave t (.rosSignal sig .prev) rest .ret)
  | call {op : Op} {rest : List Frame} :
      s.stack t = .body :: rest →
      Core.Moves s t ((s.callOp op).1.setStack t ((s.callOp op).2 :: .body :: rest))
  | leave {c : Completion} {rest : List Frame} :
      s.stack t = .body :: rest → Core.Moves s t (s.leave t .body rest c)
  | signal {sig : Nat} :
      t = 0 → s.stack t ≠ [] → Core.Moves s t (s.setStack t (.rosSignal sig .start :: s.stack t))
  | spawn : Core.Moves s t { s with threads := s.threads ++ [[.body]] }
  | exit : s.stack t = [] → Core.Moves s t { s with dead := t :: s.dead }

theorem Core.moves_of_step {s s' : Core} {t : Nat} {a : Act} (h : s.step t a = some s') :
    s.Moves t s' := by
  cases a with
  | exec =>
    simp only [Core.step] at h
    split at h
    · obtain ⟨⟨g, o⟩, hx, rfl⟩ := Option.map_eq_some'.mp h
      exact .exec ‹_› (Core.exec_of_execFrame hx)
    · cases h
  | chain callable =>
    simp only [Core.step] at h
    split at h
    · cases callable
      · cases h; exact .chainLeave ‹_›
      · cases h; exact .chainCall ‹_›
    · cases h
  | call op =>
    simp only [Core.step] at h
    split at h
    · rename_i rest hst; cases h; rw [hst]; exact .call hst
    · cases h
  | ret =>
    simp only [Core.step] at h
    split at h
    · cases h; exact .leave ‹_›
    · cases h
  | raise e =>
    simp only [Core.step] at h
    split at h
    · cases h; exact .leave ‹_›
    · cases h
  | signal sig =>
    simp only [Core.step] at h
    split at h
    · rename_i hc; cases h; exact .signal hc.1 hc.2
    · cases h
  | spawn => cases h; exact .spawn
  | exit =>
    simp only [Core.step] at h
    split at h
    · rename_i hc; cases h; exact .exit hc.2.1
    · cases h

end RospyCore
