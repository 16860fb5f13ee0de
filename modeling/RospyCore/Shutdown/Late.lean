import Mathlib
import RospyCore.Shutdown.Nesting

/-!
# Calls that start after a call has ended

Once a `signal_shutdown` call has ended, by returning or by raising, `_in_shutdown` is set
(`Core.FinishOk`): a call returns at its checks only with a flag set, sleeps or raises at its
join only after `_in_shutdown = True`, and while `_in_shutdown` is clear no exception reaches
a `signal_shutdown` frame (`Core.Quiet`).  Calls are numbered in the order they start
(`Core.Numbered`).  A call that starts after one has ended finds `_in_shutdown` set at its
unlocked check and returns there: it never gets past its first statement, and calls no hook
(`Core.LateOk`).
-/

namespace RospyCore

/-! ### Calls -/

/-- The end of a `signal_shutdown` call. -/
def Event.isFinish : Event → Bool
  | .leave (.signalShutdown ..) _ => true
  | _ => false

/-- The `signal_shutdown` call that called a hook. -/
def Event.invokedBy : Event → Option Nat
  | .invoke _ _ _ caller _ _ => caller
  | _ => none

/-- The `signal_shutdown` call a frame runs. -/
def Frame.callId : Frame → Option Nat
  | .signalShutdown call _ _ => some call
  | _ => none

/-- Call `c`, past its unlocked check. -/
def Frame.pastStart (c : Nat) : Frame → Bool
  | .signalShutdown _ _ .start => false
  | .signalShutdown call _ _ => call == c
  | _ => false

/-- Call `c` started after some call had ended. -/
def StartedLate (trace : List Event) (c : Nat) : Prop :=
  ∃ pre post, trace = pre ++ post ∧ (∃ e ∈ pre, e.isFinish = true) ∧
    ∃ r, Event.start c r ∈ post

/-- The frames a statement puts on its stack. -/
def Outcome.newFrames : Outcome → List Frame
  | .goto f => [f]
  | .call f child => [f, child]
  | .done _ => []

@[simp] theorem Frame.pastStart_next (call : Nat) (r : String) (phase : Phase) (c : Nat) :
    (Frame.signalShutdown call r phase.next).pastStart c = (call == c) := by
  cases phase <;> rfl

theorem Frame.callId_of_pastStart {f : Frame} {c : Nat} (h : f.pastStart c = true) :
    f.callId = some c := by
  cases f with
  | signalShutdown call r pc => cases pc <;> simp_all [Frame.pastStart, Frame.callId]
  | _ => simp [Frame.pastStart] at h

/-- A frame resumes as a frame of the same call, as far past its check as before. -/
theorem Frame.resume_call {g g' : Frame} {c : Completion} (h : g.resume c = .inl g') :
    g'.callId = g.callId ∧ ∀ k, g'.pastStart k = g.pastStart k := by
  cases g with
  | signalShutdown call r pc =>
    cases pc <;> cases c <;> (try rename_i e; cases e) <;>
      simp only [Frame.resume, Sum.inl.injEq, reduceCtorEq] at h <;>
      (try split at h) <;> (try cases h) <;> exact ⟨rfl, fun _ => rfl⟩
  | _ =>
    have := (Frame.resume_inl h).1
    cases g' <;> simp_all [Frame.kind, Frame.callId, Frame.pastStart]

theorem Frame.endEvent_call {f : Frame} {c : Completion} {e : Event}
    (h : f.endEvent c = some e) :
    e.invokedBy = none ∧ (e.isFinish = true → f.isShutdown = true) ∧ ∀ k r, e ≠ .start k r := by
  cases f <;> simp only [Frame.endEvent, Option.some.injEq, reduceCtorEq] at h <;> subst h <;>
    simp [Event.invokedBy, Event.isFinish, Frame.isShutdown, Frame.kind]

/-- A split of the trace after one more step: the start is old, or new. -/
theorem StartedLate.of_append {trace new : List Event} {c : Nat}
    (h : StartedLate (trace ++ new) c) : StartedLate trace c ∨ ∃ r, Event.start c r ∈ new := by
  obtain ⟨pre, post, heq, hfin, r, hr⟩ := h
  rcases List.append_eq_append_iff.mp heq with ⟨a, rfl, rfl⟩ | ⟨a, rfl, rfl⟩
  · exact .inr ⟨r, List.mem_append_right _ hr⟩
  · rcases List.mem_append.mp hr with hr | hr
    · exact .inl ⟨pre, a, rfl, hfin, r, hr⟩
    · exact .inr ⟨r, hr⟩

/-! ### The stack and the trace after a step -/

theorem Outcome.mem_stackAfter {o : Outcome} {rest : List Frame} {x : Frame}
    (h : x ∈ o.stackAfter rest) :
    x ∈ o.newFrames ∨ x ∈ rest ∨ ∃ y ∈ rest, ∃ c, y.resume c = .inl x := by
  cases o with
  | goto f =>
    simp only [Outcome.stackAfter, List.mem_cons] at h
    rcases h with rfl | h
    · exact .inl (List.mem_singleton_self _)
    · exact .inr (.inl h)
  | call f child =>
    simp only [Outcome.stackAfter, List.mem_cons] at h
    rcases h with rfl | rfl | h
    · exact .inl (by simp [Outcome.newFrames])
    · exact .inl (by simp [Outcome.newFrames])
    · exact .inr (.inl h)
  | done c => exact .inr (mem_unwind h)

theorem Core.mem_stack_setStack {s g : Core} {t u : Nat} {st : List Frame} {x : Frame}
    (hg : g.threads = s.threads) (ht : t < s.threads.length)
    (hx : x ∈ (g.setStack t st).stack u) : (u = t ∧ x ∈ st) ∨ x ∈ s.stack u := by
  rw [Core.stack_setStack (hg ▸ ht)] at hx
  split at hx
  · exact .inl ⟨‹_›, hx⟩
  · exact .inr (by simpa [Core.stack, hg] using hx)

theorem Core.trace_leave (s : Core) (t : Nat) (top : Frame) (rest : List Frame)
    (c : Completion) : ∃ new, (s.leave t top rest c).trace = s.trace ++ new ∧
      ∀ e ∈ new, ∃ x ∈ top :: rest, ∃ c', x.endEvent c' = some e := by
  refine ⟨_, rfl, fun e he => ?_⟩
  obtain ⟨⟨x, c'⟩, hx, hxe⟩ := List.mem_filterMap.mp he
  refine ⟨x, ?_, c', hxe⟩
  rcases List.mem_cons.mp hx with h | h
  · cases h; exact List.mem_cons_self _ _
  · exact List.mem_cons_of_mem _ (mem_unwind_ended h)

theorem Core.trace_apply (g : Core) (t : Nat) (f : Frame) (rest : List Frame) (o : Outcome) :
    ∃ new, (g.apply t f rest o).trace = g.trace ++ new ∧
      ∀ e ∈ new, (∃ c, o = .done c) ∧ ∃ x ∈ f :: rest, ∃ c', x.endEvent c' = some e := by
  cases o with
  | done c =>
    obtain ⟨new, h, hnew⟩ := g.trace_leave t f rest c
    exact ⟨new, h, fun e he => ⟨⟨c, rfl⟩, hnew e he⟩⟩
  | _ => exact ⟨[], (List.append_nil _).symm, by simp⟩

/-- A frame a step of thread `t` from `s` to `s'` puts on a stack, with the guard that put
it there. -/
inductive Core.NewFrame (s : Core) (t : Nat) (s' : Core) : Frame → Prop
  | exec {f : Frame} {rest : List Frame} {g : Core} {o : Outcome} {x : Frame} :
      s.stack t = f :: rest → s.Exec t f g o → s' = g.apply t f rest o → x ∈ o.newFrames →
      Core.NewFrame s t s' x
  | body : Core.NewFrame s t s' .body
  | prevHandler {sig : Nat} {rest : List Frame} : s.stack t = .rosSignal sig .prev :: rest →
      Core.NewFrame s t s' (.rosSignal sig .prevHandler)
  | call {op : Op} {rest : List Frame} : s.stack t = .body :: rest →
      Core.NewFrame s t s' (s.callOp op).2
  | signal {sig : Nat} : t = 0 → Core.NewFrame s t s' (.rosSignal sig .start)

/-- A frame after a step is an old frame of its stack, a frame resumed from one, or a frame
the step made, on the acting thread unless it is a new thread's body. -/
theorem Core.Moves.mem_stack {s s' : Core} {t : Nat} (hm : s.Moves t s') {u : Nat} {x : Frame}
    (hx : x ∈ s'.stack u) :
    x ∈ s.stack u ∨ (∃ y ∈ s.stack u, ∃ c, y.resume c = .inl x) ∨
      (Core.NewFrame s t s' x ∧ (u = t ∨ x = .body)) := by
  have hne : ∀ {f rest}, s.stack t = f :: rest → t < s.threads.length :=
    fun h => Core.lt_of_stack_ne_nil (by simp [h])
  cases hm with
  | @exec f rest g o hst hx' =>
    rw [Core.stack_apply (hx'.threads_eq ▸ hne hst), hx'.stack_eq] at hx
    split at hx
    · rename_i hu
      rcases Outcome.mem_stackAfter hx with hxo | hx | ⟨y, hy, c, hr⟩
      · exact .inr (.inr ⟨.exec hst hx' rfl hxo, .inl hu⟩)
      · exact .inl (hu ▸ hst ▸ List.mem_cons_of_mem _ hx)
      · exact .inr (.inl ⟨y, hu ▸ hst ▸ List.mem_cons_of_mem _ hy, c, hr⟩)
    · exact .inl hx
  | chainCall hst =>
    rcases Core.mem_stack_setStack rfl (hne hst) hx with ⟨hu, hx⟩ | hx
    · simp only [List.mem_cons] at hx
      rcases hx with rfl | rfl | hx
      · exact .inr (.inr ⟨.body, .inl hu⟩)
      · exact .inr (.inr ⟨.prevHandler hst, .inl hu⟩)
      · exact .inl (hu ▸ hst ▸ List.mem_cons_of_mem _ hx)
    · exact .inl hx
  | chainLeave hst | leave hst =>
    rcases Core.mem_stack_setStack rfl (hne hst) hx with ⟨hu, hx⟩ | hx
    · rcases mem_unwind hx with hx | ⟨y, hy, c, hr⟩
      · exact .inl (hu ▸ hst ▸ List.mem_cons_of_mem _ hx)
      · exact .inr (.inl ⟨y, hu ▸ hst ▸ List.mem_cons_of_mem _ hy, c, hr⟩)
    · exact .inl hx
  | @call op rest hst =>
    rcases Core.mem_stack_setStack (by cases op <;> rfl) (hne hst) hx with ⟨hu, hx⟩ | hx
    · simp only [List.mem_cons] at hx
      rcases hx with rfl | rfl | hx
      · exact .inr (.inr ⟨.call hst, .inl hu⟩)
      · exact .inr (.inr ⟨.body, .inl hu⟩)
      · exact .inl (hu ▸ hst ▸ List.mem_cons_of_mem _ hx)
    · exact .inl hx
  | signal h0 hne' =>
    rcases Core.mem_stack_setStack rfl (Core.lt_of_stack_ne_nil hne') hx with ⟨hu, hx⟩ | hx
    · rcases List.mem_cons.mp hx with rfl | hx
      · exact .inr (.inr ⟨.signal h0, .inl hu⟩)
      · exact .inl (hu ▸ hx)
    · exact .inl hx
  | spawn =>
    rw [Core.stack_spawn] at hx
    split at hx
    · rw [List.mem_singleton.mp hx]
      exact .inr (.inr ⟨.body, .inr rfl⟩)
    · exact .inl hx
  | exit _ => exact .inl hx

/-! ### What a statement does to calls -/

section Exec

variable {s g : Core} {t : Nat} {f : Frame} {o : Outcome}

/-- A statement's events: never the end of a call, a start only of a new call, and a hook
called only by a call past its check. -/
theorem Core.Exec.trace_new (hx : s.Exec t f g o) :
    ∃ new, g.trace = s.trace ++ new ∧ ∀ e ∈ new, e.isFinish = false ∧
      (∀ k r, e = .start k r → k = s.nextCall ∧ g.nextCall = s.nextCall + 1) ∧
      ∀ k ∈ e.invokedBy, f.pastStart k = true := by
  cases hx
  all_goals first
    | exact ⟨[], (List.append_nil _).symm, by simp⟩
    | exact ⟨_, rfl, by
        simp [Event.isFinish, Event.invokedBy, Frame.pastStart, Core.callShutdown]⟩

/-- A statement that ends a `signal_shutdown` frame or a chain frame runs with
`_in_shutdown` set. -/
theorem Core.Exec.inShutdown_of_done {c : Completion} (hx : s.Exec t f g (.done c))
    (hl : s.Lifecycle) (hf : f ∈ s.stack t) (h : f.isShutdown = true ∨ f.chain = true) :
    s.inShutdown = true := by
  have htest : (s.shutdownFlag || s.inShutdown) = true → s.inShutdown = true := fun h =>
    (Bool.or_eq_true _ _ ▸ h).elim hl.flag_inShutdown id
  cases hx
  all_goals first
    | exact htest ‹_›
    | exact hl.afterRequest t _ hf rfl
    | simp [Frame.isShutdown, Frame.kind, Frame.chain] at h

/-- A frame a statement puts on its stack runs the call its frame ran, as far past the check
unless the check passed, or a new call. -/
theorem Core.Exec.newFrames_call (hx : s.Exec t f g o) {x : Frame} (hxo : x ∈ o.newFrames)
    {k : Nat} (hk : x.callId = some k) :
    (f.callId = some k ∧ (x.pastStart k = true → f.pastStart k = true ∨ s.inShutdown = false)) ∨
      (k = s.nextCall ∧ g.nextCall = s.nextCall + 1 ∧ x.pastStart k = false) := by
  cases hx <;>
    simp only [Outcome.newFrames, List.mem_cons, List.mem_singleton, List.not_mem_nil,
      or_false] at hxo <;>
    (try rcases hxo with hxo | hxo) <;> (try subst hxo) <;>
    simp_all [Frame.callId, Frame.pastStart, Core.callShutdown]

theorem Core.Exec.nextCall_le (hx : s.Exec t f g o) : s.nextCall ≤ g.nextCall := by
  cases hx <;> simp [Core.callShutdown]

end Exec

/-! ### What a step does to calls -/

/-- Where a frame of call `k` after a step from `s` to `s'` comes from: a frame of the same
call, as far past its check unless `_in_shutdown` was clear, or a new call at its start. -/
def Core.CallOrigin (s s' : Core) (x : Frame) (k : Nat) : Prop :=
  (∃ u, ∃ y ∈ s.stack u, y.callId = some k ∧
      (x.pastStart k = true → y.pastStart k = true ∨ s.inShutdown = false)) ∨
    (k = s.nextCall ∧ s'.nextCall = s.nextCall + 1 ∧ x.pastStart k = false)

section Moves

variable {s s' : Core} {t : Nat}

theorem Core.CallOrigin.old {x : Frame} {k u : Nat} (hx : x ∈ s.stack u)
    (hk : x.callId = some k) : Core.CallOrigin s s' x k :=
  .inl ⟨u, x, hx, hk, .inl⟩

theorem Core.CallOrigin.resumed {x y : Frame} {k u : Nat} {c : Completion} (hy : y ∈ s.stack u)
    (hr : y.resume c = .inl x) (hk : x.callId = some k) : Core.CallOrigin s s' x k := by
  have := Frame.resume_call hr
  exact .inl ⟨u, y, hy, this.1 ▸ hk, fun h => .inl (this.2 k ▸ h)⟩

theorem Core.CallOrigin.unwind {x : Frame} {k : Nat} {f : Frame} {rest : List Frame}
    {c : Completion} (hst : s.stack t = f :: rest) (hx : x ∈ (RospyCore.unwind rest c).1)
    (hk : x.callId = some k) : Core.CallOrigin s s' x k := by
  rcases mem_unwind hx with hx | ⟨y, hy, c', hr⟩
  · exact .old (hst ▸ List.mem_cons_of_mem _ hx) hk
  · exact .resumed (hst ▸ List.mem_cons_of_mem _ hy) hr hk

/-- Every frame of a call after a step comes from a frame of that call before it, or from a
new call. -/
theorem Core.Moves.callOrigin (hm : s.Moves t s') {u : Nat} {x : Frame} (hx : x ∈ s'.stack u)
    {k : Nat} (hk : x.callId = some k) : Core.CallOrigin s s' x k := by
  have hne : ∀ {f rest}, s.stack t = f :: rest → t < s.threads.length :=
    fun h => Core.lt_of_stack_ne_nil (by simp [h])
  cases hm with
  | @exec f rest g o hst hx' =>
    rw [Core.stack_apply (hx'.threads_eq ▸ hne hst), hx'.stack_eq] at hx
    split at hx
    · rcases Outcome.mem_stackAfter hx with hxo | hx | ⟨y, hy, c, hr⟩
      · rcases hx'.newFrames_call hxo hk with ⟨hfk, hp⟩ | ⟨h1, h2, h3⟩
        · exact .inl ⟨t, f, hst ▸ List.mem_cons_self _ _, hfk, hp⟩
        · exact .inr ⟨h1, by cases o <;> exact h2, h3⟩
      · exact .old (hst ▸ List.mem_cons_of_mem _ hx) hk
      · exact .resumed (hst ▸ List.mem_cons_of_mem _ hy) hr hk
    · exact .old hx hk
  | chainCall hst =>
    rcases Core.mem_stack_setStack rfl (hne hst) hx with ⟨-, hx⟩ | hx
    · simp only [List.mem_cons] at hx
      rcases hx with rfl | rfl | hx
      · simp [Frame.callId] at hk
      · simp [Frame.callId] at hk
      · exact .old (hst ▸ List.mem_cons_of_mem _ hx) hk
    · exact .old hx hk
  | chainLeave hst | leave hst =>
    rcases Core.mem_stack_setStack rfl (hne hst) hx with ⟨-, hx⟩ | hx
    · exact .unwind hst hx hk
    · exact .old hx hk
  | @call op rest hst =>
    rcases Core.mem_stack_setStack (by cases op <;> rfl) (hne hst) hx with ⟨-, hx⟩ | hx
    · simp only [List.mem_cons] at hx
      rcases hx with rfl | rfl | hx
      · cases op with
        | signalShutdown r =>
          simp only [Core.callOp, Core.callShutdown, Frame.callId, Option.some.injEq] at hk
          exact .inr ⟨hk.symm, rfl, rfl⟩
        | _ => simp [Core.callOp, Frame.callId] at hk
      · simp [Frame.callId] at hk
      · exact .old (hst ▸ List.mem_cons_of_mem _ hx) hk
    · exact .old hx hk
  | signal _ hne' =>
    rcases Core.mem_stack_setStack rfl (Core.lt_of_stack_ne_nil hne') hx with ⟨-, hx⟩ | hx
    · rcases List.mem_cons.mp hx with rfl | hx
      · simp [Frame.callId] at hk
      · exact .old hx hk
    · exact .old hx hk
  | spawn =>
    rw [Core.stack_spawn] at hx
    split at hx
    · simp_all [Frame.callId]
    · exact .old hx hk
  | exit _ => exact .old hx hk

/-- A step's events: the ends of frames, a start only of a new call, and a hook called only
by a call past its check. -/
theorem Core.Moves.trace_new (hm : s.Moves t s') :
    ∃ new, s'.trace = s.trace ++ new ∧ ∀ e ∈ new,
      (∀ k r, e = .start k r → k = s.nextCall ∧ s'.nextCall = s.nextCall + 1) ∧
      ∀ k ∈ e.invokedBy, ∃ u, ∃ y ∈ s.stack u, y.pastStart k = true := by
  have hend : ∀ {x : Frame} {c : Completion} {e : Event}, x.endEvent c = some e →
      (∀ k r, e = .start k r → k = s.nextCall ∧ s'.nextCall = s.nextCall + 1) ∧
      ∀ k ∈ e.invokedBy, ∃ u, ∃ y ∈ s.stack u, y.pastStart k = true := fun h => by
    obtain ⟨h1, -, h3⟩ := Frame.endEvent_call h
    exact ⟨fun k r he => absurd he (h3 k r), by simp [h1]⟩
  cases hm with
  | @exec f rest g o hst hx =>
    obtain ⟨new, hg, hnew⟩ := hx.trace_new
    obtain ⟨new', hg', hnew'⟩ := g.trace_apply t f rest o
    refine ⟨new ++ new', by rw [hg', hg, List.append_assoc], fun e he => ?_⟩
    rcases List.mem_append.mp he with he | he
    · obtain ⟨-, h2, h3⟩ := hnew e he
      refine ⟨fun k r h => ?_, fun k hk => ⟨t, f, hst ▸ List.mem_cons_self _ _, h3 k hk⟩⟩
      obtain ⟨h1, h2⟩ := h2 k r h
      exact ⟨h1, by cases o <;> exact h2⟩
    · obtain ⟨-, x, -, c', hxe⟩ := hnew' e he
      exact hend hxe
  | chainLeave hst | leave hst =>
    obtain ⟨new, h, hnew⟩ := s.trace_leave t _ _ _
    refine ⟨new, h, fun e he => ?_⟩
    obtain ⟨x, -, c', hxe⟩ := hnew e he
    exact hend hxe
  | @call op rest hst =>
    cases op
    case signalShutdown r =>
      exact ⟨_, rfl, by simp [Core.callOp, Core.callShutdown, Core.setStack, Event.invokedBy]⟩
    all_goals exact ⟨[], (List.append_nil _).symm, by simp⟩
  | _ => exact ⟨[], (List.append_nil _).symm, by simp⟩

theorem Core.Moves.nextCall_le (hm : s.Moves t s') : s.nextCall ≤ s'.nextCall := by
  cases hm with
  | @exec f rest g o hst hx => cases o <;> exact hx.nextCall_le
  | @call op rest _ => cases op <;> simp [Core.callOp, Core.callShutdown, Core.setStack]
  | _ => exact le_rfl

end Moves

/-! ### Every reachable state -/

/-- Once a call has ended, `_in_shutdown` is set. -/
def Core.FinishOk (s : Core) : Prop :=
  s.inShutdown = false → ∀ e ∈ s.trace, e.isFinish = false

/-- Calls are numbered in the order they start. -/
structure Core.Numbered (s : Core) : Prop where
  frames : ∀ u, ∀ x ∈ s.stack u, ∀ k ∈ x.callId, k < s.nextCall
  events : ∀ e ∈ s.trace, ∀ k ∈ e.invokedBy, k < s.nextCall

/-- A call that started after some call had ended is at its first statement, and has called
no hook. -/
def Core.LateOk (s : Core) : Prop :=
  ∀ c, StartedLate s.trace c →
    (∀ u, ∀ x ∈ s.stack u, x.pastStart c = false) ∧ ∀ e ∈ s.trace, e.invokedBy ≠ some c

section Reachable

variable {s s' : Core} {t : Nat}

/-- A step that ends a `signal_shutdown` frame runs with `_in_shutdown` set. -/
theorem Core.Moves.finishOk (hm : s.Moves t s') (hl : s.Lifecycle) (hq : s.Quiet)
    (hfo : s.FinishOk) : s'.FinishOk := by
  intro hin' e he
  have hin : s.inShutdown = false := by
    cases h : s.inShutdown
    · rfl
    · simp [hm.inShutdown_mono h] at hin'
  have hquiet : ∀ {f rest}, s.stack t = f :: rest → f.chain = false →
      ∀ x ∈ f :: rest, x.isShutdown = false := fun hst hfc =>
    (ChainThen.cons_not_chain hfc).mp (hst ▸ hq hin t)
  have hend : ∀ {f rest x c'}, s.stack t = f :: rest → f.chain = false → x ∈ f :: rest →
      x.endEvent c' = some e → e.isFinish = false := fun hst hfc hx hxe =>
    Bool.eq_false_iff.mpr fun hf => by
      simpa [hquiet hst hfc _ hx] using (Frame.endEvent_call hxe).2.1 hf
  suffices hold : e.isFinish = true → e ∈ s.trace from
    Bool.eq_false_iff.mpr fun hf => by simp [hfo hin e (hold hf)] at hf
  intro hf
  cases hm with
  | @exec f rest g o hst hx =>
    obtain ⟨new', hg', hnew'⟩ := g.trace_apply t f rest o
    obtain ⟨new, hg, hnew⟩ := hx.trace_new
    rw [hg', hg, List.mem_append, List.mem_append] at he
    rcases he with (he | he) | he
    · exact he
    · simp [(hnew e he).1] at hf
    · obtain ⟨⟨c, rfl⟩, x, hx', c', hxe⟩ := hnew' e he
      by_cases hfc : f.isShutdown = true ∨ f.chain = true
      · simp [hx.inShutdown_of_done hl (hst ▸ List.mem_cons_self _ _) hfc] at hin
      · simp only [not_or, Bool.not_eq_true] at hfc
        simp [hend hst hfc.2 hx' hxe] at hf
  | chainLeave hst =>
    simp [hl.afterRequest t _ (hst ▸ List.mem_cons_self _ _) (by rfl)] at hin
  | leave hst =>
    obtain ⟨new, htr, hnew⟩ := s.trace_leave t _ _ _
    rw [htr, List.mem_append] at he
    rcases he with he | he
    · exact he
    · obtain ⟨x, hx, c', hxe⟩ := hnew e he
      simp [hend hst rfl hx hxe] at hf
  | @call op rest hst =>
    cases op
    case signalShutdown r =>
      rcases List.mem_append.mp he with he | he
      · exact he
      · simp [List.mem_singleton.mp he, Event.isFinish] at hf
    all_goals exact he
  | _ => exact he

theorem Core.Moves.numbered (hm : s.Moves t s') (hn : s.Numbered) : s'.Numbered := by
  have hle := hm.nextCall_le
  refine ⟨fun u x hx k hk => ?_, fun e he k hk => ?_⟩
  · rcases hm.callOrigin hx hk with ⟨v, y, hy, hyk, -⟩ | ⟨rfl, h, -⟩
    · exact (hn.frames v y hy k hyk).trans_le hle
    · omega
  · obtain ⟨new, htr, hnew⟩ := hm.trace_new
    rw [htr, List.mem_append] at he
    rcases he with he | he
    · exact (hn.events e he k hk).trans_le hle
    · obtain ⟨v, y, hy, hyp⟩ := (hnew e he).2 k hk
      exact (hn.frames v y hy k (Frame.callId_of_pastStart hyp)).trans_le hle

/-- A call that starts after one has ended never passes its check: at its start
`_in_shutdown` is set, and a new call is past nothing. -/
theorem Core.Moves.lateOk (hm : s.Moves t s') (hfo : s.FinishOk) (hn : s.Numbered)
    (hlo : s.LateOk) : s'.LateOk := by
  obtain ⟨new, htr, hnew⟩ := hm.trace_new
  intro c hc
  rw [htr] at hc ⊢
  rcases hc.of_append with hold | ⟨r, hr⟩
  · have hin : s.inShutdown = true := by
      obtain ⟨pre, post, heq, ⟨e, he, hef⟩, -⟩ := hold
      cases h : s.inShutdown
      · simp [hfo h e (heq ▸ List.mem_append_left _ he)] at hef
      · rfl
    obtain ⟨hfr, hev⟩ := hlo c hold
    refine ⟨fun u x hx => ?_, fun e he => ?_⟩
    · cases hxp : x.pastStart c
      · rfl
      · rcases hm.callOrigin hx (Frame.callId_of_pastStart hxp) with
          ⟨v, y, hy, -, hp⟩ | ⟨-, -, h⟩
        · rcases hp hxp with hp | hp
          · simp [hfr v y hy] at hp
          · simp [hin] at hp
        · simp [hxp] at h
    · rcases List.mem_append.mp he with he | he
      · exact hev e he
      · intro hk
        obtain ⟨v, y, hy, hyp⟩ := (hnew e he).2 c hk
        simp [hfr v y hy] at hyp
  · obtain ⟨rfl, -⟩ := (hnew _ hr).1 c r rfl
    refine ⟨fun u x hx => ?_, fun e he hk => ?_⟩
    · cases hxp : x.pastStart s.nextCall
      · rfl
      · rcases hm.callOrigin hx (Frame.callId_of_pastStart hxp) with
          ⟨v, y, hy, hyk, -⟩ | ⟨-, -, h⟩
        · exact absurd (hn.frames v y hy _ hyk) (lt_irrefl _)
        · simp [hxp] at h
    · rcases List.mem_append.mp he with he | he
      · exact absurd (hn.events e he _ hk) (lt_irrefl _)
      · obtain ⟨v, y, hy, hyp⟩ := (hnew e he).2 _ hk
        exact absurd (hn.frames v y hy _ (Frame.callId_of_pastStart hyp)) (lt_irrefl _)

theorem Core.Reachable.finishOk (h : s.Reachable) : s.FinishOk := by
  induction h with
  | init => intro _ e he; simp [Core.init] at he
  | step _ _ hr hs ih => exact (Core.moves_of_step hs).finishOk hr.lifecycle hr.quiet ih

theorem Core.Reachable.numbered (h : s.Reachable) : s.Numbered := by
  induction h with
  | init =>
    refine ⟨fun u x hx k hk => ?_, fun e he => by simp [Core.init] at he⟩
    rcases u with _ | u
    · simp_all [Core.stack, Core.init, Frame.callId]
    · simp [Core.stack, Core.init] at hx
  | step _ _ _ hs ih => exact (Core.moves_of_step hs).numbered ih

theorem Core.Reachable.lateOk (h : s.Reachable) : s.LateOk := by
  induction h with
  | init =>
    rintro c ⟨pre, post, heq, ⟨e, he, -⟩, -⟩
    simp [Core.init] at heq
    simp [heq.1] at he
  | step _ _ hr hs ih => exact (Core.moves_of_step hs).lateOk hr.finishOk hr.numbered ih

end Reachable

end RospyCore
