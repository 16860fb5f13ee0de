import Mathlib
import RospyCore.Shutdown.Steps

/-!
# Well-formed stacks

A frame sits directly on the frame that called it: a body calls the module's functions, a
`signal_shutdown` loop calls a hook, `_add_shutdown_hook` calls its hook at once after
shutdown, `_ros_signal` calls `signal_shutdown` and then the previous handler.  Any other
frame can only have been interrupted, by `_ros_signal`.  The top frame is never one waiting
for a callee.  Every reachable state has well-formed stacks (`Core.Reachable.wellFormed`), so
a frame that resumes with a completion gets it from the frame it called or from a signal
handler, as `Frame.resume` assumes.
-/

namespace RospyCore

/-- Which function a frame is a call of. -/
inductive FrameKind where
  | body
  | shutdown
  | hook
  | thread
  | signal
  deriving DecidableEq

def Frame.kind : Frame → FrameKind
  | .body => .body
  | .signalShutdown .. => .shutdown
  | .addShutdownHook .. => .hook
  | .addShutdownThread .. => .thread
  | .rosSignal .. => .signal

/-- The frame waits for a frame it called. -/
def Frame.atCall : Frame → Bool
  | .signalShutdown _ _ (.hook _ _) | .addShutdownHook _ _ .immediate
  | .rosSignal _ .shutdown | .rosSignal _ .prevHandler => true
  | _ => false

/-- `above` may sit directly on `below`. -/
def Frame.supports (below above : Frame) : Bool :=
  match below with
  | .body => above.kind != .body
  | .signalShutdown _ _ (.hook _ _) | .addShutdownHook _ _ .immediate
  | .rosSignal _ .prevHandler => above.kind == .body
  | .rosSignal _ .shutdown => above.kind == .shutdown
  | _ => above.kind == .signal

/-- A well-formed stack, innermost first. -/
def StackOk (st : List Frame) : Prop :=
  st.Chain' (fun above below => below.supports above) ∧ ∀ f ∈ st.head?, f.atCall = false

/-- Every thread's stack is well formed. -/
def Core.WellFormed (s : Core) : Prop := ∀ t, StackOk (s.stack t)

/-! ### Frames -/

theorem Frame.supports_congr (below : Frame) {f f' : Frame} (h : f'.kind = f.kind) :
    below.supports f' = below.supports f := by
  unfold Frame.supports; rw [h]

theorem Frame.supports_signal {below above : Frame} (hb : below.atCall = false)
    (ha : above.kind = .signal) : below.supports above = true := by
  cases below with
  | signalShutdown _ _ pc => cases pc <;> simp_all [Frame.supports, Frame.atCall]
  | addShutdownHook _ _ pc => cases pc <;> simp_all [Frame.supports, Frame.atCall]
  | rosSignal _ pc => cases pc <;> simp_all [Frame.supports, Frame.atCall]
  | _ => simp [Frame.supports, ha]

/-- A frame resumes as a frame of the same function, not at a call. -/
theorem Frame.resume_inl {f f' : Frame} {c : Completion} (h : f.resume c = .inl f') :
    f'.kind = f.kind ∧ f'.atCall = false := by
  cases f with
  | body => cases h; exact ⟨rfl, rfl⟩
  | signalShutdown call r pc =>
    cases pc <;> cases c <;> (try rename_i e; cases e) <;>
      simp only [Frame.resume, Sum.inl.injEq, reduceCtorEq] at h <;>
      (try split at h) <;> (try cases h) <;> exact ⟨rfl, rfl⟩
  | addShutdownHook h' phase pc =>
    cases pc <;> cases c <;> simp only [Frame.resume, Sum.inl.injEq, reduceCtorEq] at h <;>
      cases h <;> exact ⟨rfl, rfl⟩
  | addShutdownThread u pc =>
    cases pc <;> cases c <;> simp only [Frame.resume, Sum.inl.injEq, reduceCtorEq] at h <;>
      cases h <;> exact ⟨rfl, rfl⟩
  | rosSignal sig pc =>
    cases pc <;> cases c <;> (try rename_i e; cases e) <;>
      simp only [Frame.resume, Sum.inl.injEq, reduceCtorEq] at h <;> cases h <;> exact ⟨rfl, rfl⟩

/-! ### Stacks -/

/-- What may sit on a frame depends only on its function. -/
theorem chain_replace {f f' : Frame} {rest : List Frame}
    (h : (f :: rest).Chain' (fun above below => below.supports above))
    (hk : f'.kind = f.kind) : (f' :: rest).Chain' (fun above below => below.supports above) := by
  cases rest with
  | nil => exact List.chain'_singleton _
  | cons g gs =>
    rw [List.chain'_cons] at h ⊢
    exact ⟨(Frame.supports_congr g hk).trans h.1, h.2⟩

theorem StackOk.goto {f f' : Frame} {rest : List Frame} (h : StackOk (f :: rest))
    (hk : f'.kind = f.kind) (hc : f'.atCall = false) : StackOk (f' :: rest) :=
  ⟨chain_replace h.1 hk, by simpa using hc⟩

theorem StackOk.call {f f' child : Frame} {rest : List Frame} (h : StackOk (f :: rest))
    (hk : f'.kind = f.kind) (hs : f'.supports child = true) (hc : child.atCall = false) :
    StackOk (child :: f' :: rest) :=
  ⟨List.chain'_cons.mpr ⟨hs, chain_replace h.1 hk⟩, by simpa using hc⟩

theorem StackOk.push {f : Frame} {st : List Frame} (h : StackOk st) (hk : f.kind = .signal)
    (hc : f.atCall = false) : StackOk (f :: st) := by
  refine ⟨?_, by simpa using hc⟩
  cases st with
  | nil => exact List.chain'_singleton _
  | cons g gs =>
    rw [List.chain'_cons]
    exact ⟨Frame.supports_signal (h.2 g rfl) hk, h.1⟩

/-- What is left of a chain after unwinding is a well-formed stack. -/
theorem stackOk_unwind {rest : List Frame}
    (h : rest.Chain' (fun above below => below.supports above)) (c : Completion) :
    StackOk (unwind rest c).1 := by
  induction rest generalizing c with
  | nil => exact ⟨List.chain'_nil, by simp⟩
  | cons g gs ih =>
    rcases hr : g.resume c with g' | c'
    · rw [unwind_cons_inl gs hr]
      have hg := Frame.resume_inl hr
      exact ⟨chain_replace h hg.1, by simpa using hg.2⟩
    · rw [unwind_cons_inr gs hr]
      exact ih h.tail c'

theorem StackOk.unwind {f : Frame} {rest : List Frame} (h : StackOk (f :: rest))
    (c : Completion) : StackOk (RospyCore.unwind rest c).1 :=
  stackOk_unwind h.1.tail c

/-- A statement leaves a well-formed stack. -/
theorem Core.Exec.stackOk {s g : Core} {t : Nat} {f : Frame} {o : Outcome} (hx : s.Exec t f g o)
    {rest : List Frame} (h : StackOk (f :: rest)) : StackOk (o.stackAfter rest) := by
  cases hx <;> first
    | exact h.unwind _
    | exact h.goto rfl rfl
    | exact h.call rfl rfl rfl
    | (rename_i phase; cases phase <;> exact h.goto rfl rfl)

/-! ### Every reachable state -/

theorem Core.wellFormed_setStack {s : Core} {t : Nat} (hw : s.WellFormed)
    (ht : t < s.threads.length) {st : List Frame} (h : StackOk st) :
    (s.setStack t st).WellFormed := by
  intro u
  rw [Core.stack_setStack ht]
  split
  · exact h
  · exact hw u

theorem Core.Moves.wellFormed {s s' : Core} {t : Nat} (hm : s.Moves t s') (hw : s.WellFormed) :
    s'.WellFormed := by
  have hne : ∀ {f rest}, s.stack t = f :: rest → t < s.threads.length :=
    fun h => Core.lt_of_stack_ne_nil (by simp [h])
  cases hm with
  | @exec f rest g o hst hx =>
    have hok := hx.stackOk (hst ▸ hw t)
    intro u
    rw [Core.stack_apply (hx.threads_eq ▸ hne hst)]
    split
    · exact hok
    · exact (show g.stack u = s.stack u by simp [Core.stack, hx.threads_eq]) ▸ hw u
  | chainCall hst => exact Core.wellFormed_setStack hw (hne hst) ((hst ▸ hw t).call rfl rfl rfl)
  | chainLeave hst => exact Core.wellFormed_setStack hw (hne hst) ((hst ▸ hw t).unwind _)
  | @call op rest hst =>
    have hok : StackOk ((s.callOp op).2 :: .body :: rest) := by
      refine (hst ▸ hw t).call rfl ?_ ?_ <;> cases op <;> rfl
    intro u
    rw [Core.stack_setStack (by cases op <;> exact hne hst)]
    split
    · exact hok
    · cases op <;> exact hw u
  | leave hst => exact Core.wellFormed_setStack hw (hne hst) ((hst ▸ hw t).unwind _)
  | signal _ hne' =>
    exact Core.wellFormed_setStack hw (Core.lt_of_stack_ne_nil hne') ((hw t).push rfl rfl)
  | spawn =>
    intro u
    rw [Core.stack_spawn]
    split
    · exact ⟨List.chain'_singleton _, by simp [Frame.atCall]⟩
    · exact hw u
  | exit _ => exact hw

theorem Core.wellFormed_init : Core.init.WellFormed := by
  intro u
  rcases u with _ | u
  · exact ⟨List.chain'_singleton _, by simp [Core.stack, Core.init, Frame.atCall]⟩
  · simp [Core.stack, Core.init, StackOk]

theorem Core.Reachable.wellFormed {s : Core} (h : s.Reachable) : s.WellFormed := by
  induction h with
  | init => exact Core.wellFormed_init
  | step _ _ _ hs ih => exact (Core.moves_of_step hs).wellFormed ih

end RospyCore
