import Mathlib
import RospyCore.Shutdown.Stacks

/-!
# The lifecycle

`_in_shutdown` and `_shutdown_flag` are set and never cleared (`Core.Moves.inShutdown_mono`,
`Core.Moves.shutdownFlag_mono`).  `_shutdown_flag = True` is run by a `signal_shutdown`
call past `_in_shutdown = True`, so `_shutdown_flag` implies `_in_shutdown`
(`Core.Lifecycle`).  The same holds of every frame that only exists once shutdown was
requested (`Frame.afterRequest`): a `signal_shutdown` call past the assignment, an
`_add_shutdown_hook` calling its hook at once, a `_ros_signal` whose `signal_shutdown`
returned.  The last needs the stacks to be well formed: a `_ros_signal` frame resumes at
its previous handler only when the `signal_shutdown` call it made returns, and a
`signal_shutdown` call returns only after a test found a flag set, or from its last
statement.
-/

namespace RospyCore

/-! ### The flags only rise -/

section Mono

variable {s g s' : Core} {t : Nat} {f : Frame} {o : Outcome}

theorem Core.Exec.inShutdown_mono (hx : s.Exec t f g o) (h : s.inShutdown = true) :
    g.inShutdown = true := by
  cases hx <;> first | exact h | rfl

theorem Core.Exec.shutdownFlag_mono (hx : s.Exec t f g o) (h : s.shutdownFlag = true) :
    g.shutdownFlag = true := by
  cases hx <;> first | exact h | rfl

@[simp] theorem Core.apply_inShutdown (s : Core) (t : Nat) (top : Frame) (rest : List Frame)
    (o : Outcome) : (s.apply t top rest o).inShutdown = s.inShutdown := by
  cases o <;> rfl

@[simp] theorem Core.apply_shutdownFlag (s : Core) (t : Nat) (top : Frame) (rest : List Frame)
    (o : Outcome) : (s.apply t top rest o).shutdownFlag = s.shutdownFlag := by
  cases o <;> rfl

@[simp] theorem Core.callOp_inShutdown (s : Core) (op : Op) :
    (s.callOp op).1.inShutdown = s.inShutdown := by
  cases op <;> rfl

@[simp] theorem Core.callOp_shutdownFlag (s : Core) (op : Op) :
    (s.callOp op).1.shutdownFlag = s.shutdownFlag := by
  cases op <;> rfl

theorem Core.Moves.inShutdown_mono (hm : s.Moves t s') (h : s.inShutdown = true) :
    s'.inShutdown = true := by
  cases hm with
  | exec _ hx => simpa using hx.inShutdown_mono h
  | call => simpa [Core.setStack] using h
  | _ => exact h

theorem Core.Moves.shutdownFlag_mono (hm : s.Moves t s') (h : s.shutdownFlag = true) :
    s'.shutdownFlag = true := by
  cases hm with
  | exec _ hx => simpa using hx.shutdownFlag_mono h
  | call => simpa [Core.setStack] using h
  | _ => exact h

end Mono

/-! ### Frames that follow a request -/

/-- A frame that only exists once `_in_shutdown` is set. -/
def Frame.afterRequest : Frame → Bool
  | .signalShutdown _ _ .start | .signalShutdown _ _ .acquire | .signalShutdown _ _ .recheck
  | .signalShutdown _ _ .setInShutdown => false
  | .signalShutdown .. => true
  | .addShutdownHook _ _ .immediate => true
  | .rosSignal _ .prev | .rosSignal _ .prevHandler => true
  | _ => false

/-- `_shutdown_flag` implies `_in_shutdown`, and so does every frame that follows a
request. -/
structure Core.Lifecycle (s : Core) : Prop where
  flag_inShutdown : s.shutdownFlag = true → s.inShutdown = true
  afterRequest : ∀ t, ∀ f ∈ s.stack t, f.afterRequest = true → s.inShutdown = true

/-- A frame follows a request after resuming only if it did before, or it is `_ros_signal`
whose `signal_shutdown` returned. -/
theorem Frame.afterRequest_of_resume {g g' : Frame} {c : Completion} (h : g.resume c = .inl g')
    (ha : g'.afterRequest = true) :
    g.afterRequest = true ∨ (∃ sig, g = .rosSignal sig .shutdown) ∧ c = .ret := by
  cases g with
  | body => cases h; exact .inl ha
  | signalShutdown call r pc =>
    left
    cases pc <;> cases c <;> (try rename_i e; cases e) <;>
      simp only [Frame.resume, Sum.inl.injEq, reduceCtorEq] at h <;>
      (try split at h) <;> (try cases h) <;> first | rfl | exact ha
  | addShutdownHook h' phase pc =>
    left
    cases pc <;> cases c <;> simp only [Frame.resume, Sum.inl.injEq, reduceCtorEq] at h <;>
      cases h <;> exact ha
  | addShutdownThread u pc =>
    left
    cases c with
    | ret => cases h; exact ha
    | exc e => cases h
  | rosSignal sig pc =>
    cases pc <;> cases c <;> (try rename_i e; cases e) <;>
      simp only [Frame.resume, Sum.inl.injEq, reduceCtorEq] at h <;> cases h <;>
      first | exact .inl ha | exact .inr ⟨⟨sig, rfl⟩, rfl⟩

/-- A `signal_shutdown` call that returns while the stack unwinds was asleep. -/
theorem Frame.afterRequest_of_resume_ret {g : Frame} {c : Completion}
    (hk : g.kind = .shutdown) (h : g.resume c = .inr .ret) : g.afterRequest = true := by
  cases g with
  | signalShutdown call r pc =>
    cases pc <;> cases c <;> (try rename_i e; cases e) <;>
      simp only [Frame.resume, Sum.inr.injEq, reduceCtorEq, Completion.exc.injEq] at h <;>
      (try split at h) <;> simp_all [Frame.afterRequest]
  | _ => cases hk

/-- Unwinding makes a frame follow a request only if the ending `signal_shutdown` call
returned, or some frame already did. -/
theorem afterRequest_unwind {P : Prop} {top : Frame} {rest : List Frame} {c : Completion}
    (hw : (top :: rest).Chain' (fun above below => below.supports above))
    (htop : top.kind = .shutdown → c = .ret → P)
    (hrest : ∀ f ∈ rest, f.afterRequest = true → P) :
    ∀ f ∈ (unwind rest c).1, f.afterRequest = true → P := by
  induction rest generalizing top c with
  | nil => simp
  | cons g gs ih =>
    obtain ⟨hsup, hw'⟩ := List.chain'_cons.mp hw
    rcases hr : g.resume c with g' | c'
    · rw [unwind_cons_inl gs hr]
      intro f hf ha
      rcases List.mem_cons.mp hf with rfl | hf
      · rcases Frame.afterRequest_of_resume hr ha with hg | ⟨⟨sig, rfl⟩, rfl⟩
        · exact hrest g (List.mem_cons_self _ _) hg
        · exact htop (by simpa [Frame.supports] using hsup) rfl
      · exact hrest f (List.mem_cons_of_mem _ hf) ha
    · rw [unwind_cons_inr gs hr]
      refine ih hw' (fun hk hc => ?_) (fun f hf => hrest f (List.mem_cons_of_mem _ hf))
      subst hc
      exact hrest g (List.mem_cons_self _ _) (Frame.afterRequest_of_resume_ret hk hr)

/-! ### Every reachable state -/

/-- A statement keeps the lifecycle invariant on its own thread. -/
theorem Core.Exec.lifecycle {s g : Core} {t : Nat} {f : Frame} {o : Outcome}
    {rest : List Frame} (hx : s.Exec t f g o) (hl : s.Lifecycle) (hst : s.stack t = f :: rest)
    (hw : StackOk (f :: rest)) :
    (g.shutdownFlag = true → g.inShutdown = true) ∧
      ∀ f' ∈ o.stackAfter rest, f'.afterRequest = true → g.inShutdown = true := by
  have hold : ∀ f' ∈ f :: rest, f'.afterRequest = true → s.inShutdown = true :=
    fun f' hf' => hl.afterRequest t f' (hst ▸ hf')
  have hrest : ∀ f' ∈ rest, f'.afterRequest = true → g.inShutdown = true :=
    fun f' hf' ha => hx.inShutdown_mono (hold f' (List.mem_cons_of_mem _ hf') ha)
  have htest : (s.shutdownFlag || s.inShutdown) = true → s.inShutdown = true := fun h =>
    (Bool.or_eq_true _ _ ▸ h).elim hl.flag_inShutdown id
  have hf := hold f (List.mem_cons_self _ _)
  refine ⟨fun h => ?_, ?_⟩
  · cases hx <;> first | exact hl.flag_inShutdown h | rfl | exact hf rfl
  · cases hx
    all_goals first
      | exact afterRequest_unwind hw.1 (fun _ _ => htest ‹_›) hrest
      | exact afterRequest_unwind hw.1 (fun _ _ => hf rfl) hrest
      | exact afterRequest_unwind hw.1 (fun hk hc => by cases hk <;> cases hc) hrest
      | exact afterRequest_unwind hw.1 (fun hk _ => by cases hk) hrest
      | exact List.forall_mem_cons.mpr ⟨fun _ => hf rfl, hrest⟩
      | exact List.forall_mem_cons.mpr ⟨fun _ => rfl, hrest⟩
      | exact List.forall_mem_cons.mpr ⟨by simp [Frame.afterRequest], hrest⟩
      | exact List.forall_mem_cons.mpr ⟨by simp [Frame.afterRequest],
          List.forall_mem_cons.mpr ⟨fun _ => hf rfl, hrest⟩⟩
      | exact List.forall_mem_cons.mpr ⟨by simp [Frame.afterRequest],
          List.forall_mem_cons.mpr ⟨fun _ => hl.flag_inShutdown ‹_›, hrest⟩⟩
      | exact List.forall_mem_cons.mpr ⟨by simp [Frame.afterRequest, Core.callShutdown],
          List.forall_mem_cons.mpr ⟨by simp [Frame.afterRequest], hrest⟩⟩

/-- A step that leaves the flags alone keeps the invariant if the frames of the stack it
changes do. -/
theorem Core.Lifecycle.of_stack {s s' : Core} (hl : s.Lifecycle) (t : Nat)
    (hflag : s'.shutdownFlag = s.shutdownFlag) (hin : s'.inShutdown = s.inShutdown)
    (hstack : ∀ u, u ≠ t → s'.stack u = s.stack u)
    (hnew : ∀ f ∈ s'.stack t, f.afterRequest = true → s.inShutdown = true) : s'.Lifecycle := by
  refine ⟨fun h => hin ▸ hl.flag_inShutdown (hflag ▸ h), fun u f hf ha => hin ▸ ?_⟩
  by_cases hu : u = t
  · exact hnew f (hu ▸ hf) ha
  · exact hl.afterRequest u f (hstack u hu ▸ hf) ha

theorem Core.Moves.lifecycle {s s' : Core} {t : Nat} (hm : s.Moves t s') (hw : s.WellFormed)
    (hl : s.Lifecycle) : s'.Lifecycle := by
  have hne : ∀ {f rest}, s.stack t = f :: rest → t < s.threads.length :=
    fun h => Core.lt_of_stack_ne_nil (by simp [h])
  have hold : ∀ f ∈ s.stack t, f.afterRequest = true → s.inShutdown = true := hl.afterRequest t
  cases hm with
  | @exec f rest g o hst hx =>
    obtain ⟨h1, h2⟩ := hx.lifecycle hl hst (hst ▸ hw t)
    have ht := hx.threads_eq ▸ hne hst
    refine ⟨by simpa using h1, fun u f' hf' ha => ?_⟩
    rw [Core.stack_apply ht] at hf'
    split at hf'
    · simpa using h2 f' hf' ha
    · simpa using hx.inShutdown_mono (hl.afterRequest u f' (hx.stack_eq u ▸ hf') ha)
  | chainCall hst =>
    refine hl.of_stack t rfl rfl (fun u hu => by simp [Core.stack_setStack (hne hst), hu]) ?_
    rw [Core.stack_setStack (hne hst), if_pos rfl]
    rw [hst] at hold
    exact List.forall_mem_cons.mpr ⟨by simp [Frame.afterRequest],
      List.forall_mem_cons.mpr ⟨fun _ => hold _ (List.mem_cons_self _ _) rfl,
        fun f hf => hold f (List.mem_cons_of_mem _ hf)⟩⟩
  | chainLeave hst | leave hst =>
    refine hl.of_stack t rfl rfl (fun u hu => by simp [Core.stack_leave (hne hst), hu]) ?_
    rw [Core.stack_leave (hne hst), if_pos rfl]
    rw [hst] at hold
    exact afterRequest_unwind (hst ▸ hw t).1 (fun hk => by cases hk)
      (fun f hf => hold f (List.mem_cons_of_mem _ hf))
  | @call op rest hst =>
    have ht : t < (s.callOp op).1.threads.length := by cases op <;> exact hne hst
    refine hl.of_stack t (by simp [Core.setStack]) (by simp [Core.setStack])
      (fun u hu => by rw [Core.stack_setStack ht, if_neg hu]; cases op <;> rfl) ?_
    rw [Core.stack_setStack ht, if_pos rfl, ← hst]
    refine List.forall_mem_cons.mpr ⟨?_, hold⟩
    cases op <;> simp [Core.callOp, Core.callShutdown, Frame.afterRequest]
  | signal _ hne' =>
    refine hl.of_stack t rfl rfl
      (fun u hu => by simp [Core.stack_setStack (Core.lt_of_stack_ne_nil hne'), hu]) ?_
    rw [Core.stack_setStack (Core.lt_of_stack_ne_nil hne'), if_pos rfl]
    exact List.forall_mem_cons.mpr ⟨by simp [Frame.afterRequest], hold⟩
  | spawn =>
    refine ⟨hl.flag_inShutdown, fun u f hf ha => ?_⟩
    rw [Core.stack_spawn] at hf
    split at hf
    · simp_all [Frame.afterRequest]
    · exact hl.afterRequest u f hf ha
  | exit _ => exact ⟨hl.1, hl.2⟩

theorem Core.lifecycle_init : Core.init.Lifecycle := by
  refine ⟨fun h => (by cases h), fun u f hf ha => ?_⟩
  rcases u with _ | u
  · simp_all [Core.stack, Core.init, Frame.afterRequest]
  · simp [Core.stack, Core.init] at hf

theorem Core.Reachable.lifecycle {s : Core} (h : s.Reachable) : s.Lifecycle := by
  induction h with
  | init => exact Core.lifecycle_init
  | step _ _ hr hs ih => exact (Core.moves_of_step hs).lifecycle hr.wellFormed ih

/-- `_shutdown_flag` is set only by a call that has set `_in_shutdown` before. -/
theorem Core.Moves.inShutdown_of_flag {s s' : Core} {t : Nat} (hm : s.Moves t s')
    (hl : s.Lifecycle) (h : s'.shutdownFlag = true) : s.inShutdown = true := by
  cases hm with
  | @exec f rest g o hst hx =>
    rw [Core.apply_shutdownFlag] at h
    cases hx
    case setFlag => exact hl.afterRequest t _ (hst ▸ List.mem_cons_self _ _) (by rfl)
    all_goals exact hl.flag_inShutdown h
  | call => exact hl.flag_inShutdown (by simpa [Core.setStack] using h)
  | _ => exact hl.flag_inShutdown h

end RospyCore
