import Mathlib
import RospyCore.Shutdown.Lifecycle
import RospyCore.Shutdown.Lock

/-!
# How `signal_shutdown` calls nest

A `signal_shutdown` call is *pending* between its locked re-check and
`_in_shutdown = True`, and *running* in its hook loops.  Two calls can be pending at once: a
signal that arrives in the window runs `_ros_signal` on the same thread, whose call re-enters
the reentrant lock and finds both flags still clear.  The inner call then runs, and the outer
one runs after it has returned.

What keeps the calls apart:

* while `_in_shutdown` is clear, every frame above a `signal_shutdown` frame is a *chain*
  frame: a `signal_shutdown` call before `_in_shutdown = True`, or a `_ros_signal` at its call
  of `signal_shutdown` (`Core.Quiet`);
* no running call sits below a pending one, and below a pending or running call the pending
  calls all sit in the run of chain frames right under it (`Core.Nesting`).  Chain frames
  pass every exception on, so a running call that is left by an exception takes every
  pending call of its stack with it (`no_pending_of_unwind`);
* each stack has at most one running call, and only the lock's holder has one.
-/

namespace RospyCore

/-! ### Frames -/

/-- `signal_shutdown` between its locked re-check and `_in_shutdown = True`. -/
def Frame.pending : Frame → Bool
  | .signalShutdown _ _ .setInShutdown => true
  | _ => false

/-- `signal_shutdown` in its hook loops. -/
def Frame.running : Frame → Bool
  | .signalShutdown _ _ (.loop _ _) | .signalShutdown _ _ (.hook _ _)
  | .signalShutdown _ _ (.del _) | .signalShutdown _ _ .setFlag => true
  | _ => false

/-- A frame that passes every exception on: `signal_shutdown` before `_in_shutdown = True`,
`_ros_signal` up to its call of `signal_shutdown`. -/
def Frame.chain : Frame → Bool
  | .signalShutdown _ _ .start | .signalShutdown _ _ .acquire | .signalShutdown _ _ .recheck
  | .signalShutdown _ _ .setInShutdown => true
  | .rosSignal _ .start | .rosSignal _ .shutdown => true
  | _ => false

/-- A `signal_shutdown` frame. -/
def Frame.isShutdown (f : Frame) : Bool := f.kind == .shutdown

theorem Frame.afterRequest_of_running {f : Frame} (h : f.running = true) :
    f.afterRequest = true := by
  cases f with
  | signalShutdown _ _ pc => cases pc <;> simp_all [Frame.running, Frame.afterRequest]
  | _ => simp [Frame.running] at h

theorem Frame.holdsLock_of_running {f : Frame} (h : f.running = true) : f.holdsLock = true := by
  cases f with
  | signalShutdown _ _ pc => cases pc <;> simp_all [Frame.running, Frame.holdsLock]
  | _ => simp [Frame.running] at h

theorem Frame.holdsLock_of_pending {f : Frame} (h : f.pending = true) : f.holdsLock = true := by
  cases f with
  | signalShutdown _ _ pc => cases pc <;> simp_all [Frame.pending, Frame.holdsLock]
  | _ => simp [Frame.pending] at h

theorem Frame.chain_resume_exc {f : Frame} (h : f.chain = true) (e : Exc) :
    f.resume (.exc e) = .inr (.exc e) := by
  cases f with
  | signalShutdown _ _ pc => cases pc <;> simp_all [Frame.chain, Frame.resume]
  | rosSignal _ pc => cases pc <;> simp_all [Frame.chain, Frame.resume]
  | _ => simp [Frame.chain] at h

/-- What a frame keeps when it resumes: its function, and whether it is pending or running. -/
theorem Frame.resume_keeps {g g' : Frame} {c : Completion} (h : g.resume c = .inl g') :
    g'.isShutdown = g.isShutdown ∧ g'.pending = g.pending ∧ g'.running = g.running := by
  cases g with
  | body => cases h; exact ⟨rfl, rfl, rfl⟩
  | signalShutdown call r pc =>
    cases pc <;> cases c <;> (try rename_i e; cases e) <;>
      simp only [Frame.resume, Sum.inl.injEq, reduceCtorEq] at h <;>
      (try split at h) <;> (try cases h) <;> exact ⟨rfl, rfl, rfl⟩
  | addShutdownHook h' phase pc =>
    cases pc <;> cases c <;> simp only [Frame.resume, Sum.inl.injEq, reduceCtorEq] at h <;>
      cases h <;> exact ⟨rfl, rfl, rfl⟩
  | addShutdownThread u pc =>
    cases c with
    | ret => cases h; exact ⟨rfl, rfl, rfl⟩
    | exc e => cases h
  | rosSignal sig pc =>
    cases pc <;> cases c <;> (try rename_i e; cases e) <;>
      simp only [Frame.resume, Sum.inl.injEq, reduceCtorEq] at h <;> cases h <;>
      exact ⟨rfl, rfl, rfl⟩

/-- A running call is only left by an exception. -/
theorem Frame.running_resume_inr {g : Frame} {c c' : Completion} (hg : g.running = true)
    (h : g.resume c = .inr c') : ∃ e, c' = .exc e := by
  cases g with
  | signalShutdown call r pc =>
    cases c with
    | ret => cases pc <;> simp [Frame.running, Frame.resume] at hg h
    | exc e =>
      cases pc <;> simp only [Frame.running, Bool.false_eq_true] at hg <;>
        simp only [Frame.resume] at h <;> (try split at h) <;> cases h <;> exact ⟨_, rfl⟩
  | _ => simp [Frame.running] at hg

/-! ### Chains -/

/-- After the leading chain frames of `st`, no frame has `p`. -/
def ChainThen (p : Frame → Bool) (st : List Frame) : Prop :=
  ∀ g ∈ st.dropWhile Frame.chain, p g = false

theorem ChainThen.cons_chain {p : Frame → Bool} {f : Frame} {fs : List Frame}
    (hf : f.chain = true) : ChainThen p (f :: fs) ↔ ChainThen p fs := by
  simp [ChainThen, List.dropWhile_cons_of_pos hf]

theorem ChainThen.cons_not_chain {p : Frame → Bool} {f : Frame} {fs : List Frame}
    (hf : f.chain = false) : ChainThen p (f :: fs) ↔ ∀ g ∈ f :: fs, p g = false := by
  simp [ChainThen, List.dropWhile_cons_of_neg (show ¬f.chain = true by simp [hf])]

theorem ChainThen.of_cons_chain {p : Frame → Bool} {f : Frame} {fs : List Frame}
    (h : ChainThen p (f :: fs)) (hf : f.chain = true) : ChainThen p fs :=
  (ChainThen.cons_chain hf).mp h

theorem ChainThen.of_forall {p : Frame → Bool} {st : List Frame} (h : ∀ g ∈ st, p g = false) :
    ChainThen p st :=
  fun g hg => h g ((List.dropWhile_suffix _).mem hg)

theorem ChainThen.mono {p q : Frame → Bool} {st : List Frame} (h : ChainThen q st)
    (hpq : ∀ g, q g = false → p g = false) : ChainThen p st :=
  fun g hg => hpq g (h g hg)

section Keep

variable {p : Frame → Bool} (hp : ∀ g c g', g.resume c = .inl g' → p g' = p g)
include hp

/-- Unwinding a stack with no `p` frame leaves none, if resuming keeps `p`. -/
theorem unwind_forall {rest : List Frame} (h : ∀ g ∈ rest, p g = false) (c : Completion) :
    ∀ g ∈ (unwind rest c).1, p g = false := by
  intro g hg
  rcases mem_unwind hg with hg | ⟨g₀, hg₀, c', hr⟩
  · exact h g hg
  · exact (hp g₀ c' g hr).trans (h g₀ hg₀)

/-- An exception passes the leading chain frames; if no `p` frame is below them, none is
left. -/
theorem ChainThen.unwind_exc {rest : List Frame} (h : ChainThen p rest) (e : Exc) :
    ∀ g ∈ (unwind rest (.exc e)).1, p g = false := by
  induction rest with
  | nil => simp
  | cons g gs ih =>
    cases hg : g.chain
    · exact unwind_forall hp ((ChainThen.cons_not_chain hg).mp h) _
    · rw [unwind_cons_inr gs (Frame.chain_resume_exc hg e)]
      exact ih ((ChainThen.cons_chain hg).mp h)

end Keep

/-! ### Before the request -/

/-- While `_in_shutdown` is clear, every frame above a `signal_shutdown` frame is a chain
frame. -/
def Core.Quiet (s : Core) : Prop :=
  s.inShutdown = false → ∀ t, ChainThen Frame.isShutdown (s.stack t)

theorem isShutdown_resume (g : Frame) (c : Completion) (g' : Frame) (h : g.resume c = .inl g') :
    g'.isShutdown = g.isShutdown := (Frame.resume_keeps h).1

/-- A statement run while `_in_shutdown` stays clear keeps the chain above the calls. -/
theorem Core.Exec.quiet {s g : Core} {t : Nat} {f : Frame} {o : Outcome} {rest : List Frame}
    (hx : s.Exec t f g o) (hl : s.Lifecycle) (hst : s.stack t = f :: rest)
    (hin : s.inShutdown = false) (hin' : g.inShutdown = false)
    (hq : ChainThen Frame.isShutdown (f :: rest)) :
    ChainThen Frame.isShutdown (o.stackAfter rest) := by
  have hnot : s.inShutdown = true → False := by simp [hin]
  have htest : (s.shutdownFlag || s.inShutdown) = true → s.inShutdown = true := fun h =>
    (Bool.or_eq_true _ _ ▸ h).elim hl.flag_inShutdown id
  have hf : f.afterRequest = true → s.inShutdown = true :=
    hl.afterRequest t f (hst ▸ List.mem_cons_self _ _)
  have hnone : f.chain = false → ∀ g ∈ rest, g.isShutdown = false :=
    fun hc => (List.forall_mem_cons.mp ((ChainThen.cons_not_chain hc).mp hq)).2
  have hchain : f.chain = true → ∀ f', f'.chain = true → ChainThen Frame.isShutdown (f' :: rest) :=
    fun hc f' hc' => (ChainThen.cons_chain hc').mpr ((ChainThen.cons_chain hc).mp hq)
  have hplain : f.chain = false → ∀ f', f'.chain = false → f'.isShutdown = false →
      ChainThen Frame.isShutdown (f' :: rest) := fun hc f' hc' hs' =>
    (ChainThen.cons_not_chain hc').mpr (List.forall_mem_cons.mpr ⟨hs', hnone hc⟩)
  cases hx
  all_goals first
    | exact (hnot (htest ‹_›)).elim
    | exact (hnot (hf rfl)).elim
    | (simp at hin'; done)
    | exact ChainThen.of_forall (unwind_forall isShutdown_resume (hnone rfl) _)
    | (apply hchain rfl <;> rfl)
    | (apply hplain rfl <;> rfl)
    | (refine (ChainThen.cons_chain ?_).mpr (hchain rfl _ ?_) <;> rfl)
    | (refine (ChainThen.cons_not_chain ?_).mpr
        (List.forall_mem_cons.mpr ⟨?_, List.forall_mem_cons.mpr ⟨?_, hnone rfl⟩⟩) <;> rfl)

theorem Core.Moves.quiet {s s' : Core} {t : Nat} (hm : s.Moves t s') (hl : s.Lifecycle)
    (hq : s.Quiet) : s'.Quiet := by
  intro hin' u
  have hin : s.inShutdown = false := by
    cases h : s.inShutdown
    · rfl
    · simp [hm.inShutdown_mono h] at hin'
  have hq := hq hin
  have hne : ∀ {f rest}, s.stack t = f :: rest → t < s.threads.length :=
    fun h => Core.lt_of_stack_ne_nil (by simp [h])
  have hbody : ∀ {rest}, s.stack t = .body :: rest → ∀ g ∈ rest, g.isShutdown = false :=
    fun h => (List.forall_mem_cons.mp
      ((ChainThen.cons_not_chain (show Frame.body.chain = false from rfl)).mp (h ▸ hq t))).2
  cases hm with
  | @exec f rest g o hst hx =>
    have hx' := hx.quiet hl hst hin (by simpa using hin') (hst ▸ hq t)
    rw [Core.stack_apply (hx.threads_eq ▸ hne hst)]
    split
    · exact hx'
    · rw [hx.stack_eq]; exact hq u
  | chainCall hst | chainLeave hst =>
    exact absurd (hl.afterRequest t _ (hst ▸ List.mem_cons_self _ _) (by rfl)) (by simp [hin])
  | @call op rest hst =>
    refine Core.forall_stack_setStack hq (hne hst) (by cases op <;> rfl) ?_ u
    cases op
    case signalShutdown => refine (ChainThen.cons_chain ?_).mpr (hst ▸ hq t); rfl
    all_goals
      refine (ChainThen.cons_not_chain ?_).mpr
        (List.forall_mem_cons.mpr ⟨?_, List.forall_mem_cons.mpr ⟨rfl, hbody hst⟩⟩) <;> rfl
  | leave hst =>
    exact Core.forall_stack_setStack hq (hne hst) rfl
      (ChainThen.of_forall (unwind_forall isShutdown_resume (hbody hst) _)) u
  | signal _ hne' =>
    exact Core.forall_stack_setStack hq (Core.lt_of_stack_ne_nil hne') rfl
      ((ChainThen.cons_chain (show (Frame.rosSignal _ .start).chain = true from rfl)).mpr
        (hq t)) u
  | spawn =>
    rw [Core.stack_spawn]
    split
    · exact (ChainThen.cons_not_chain (show Frame.body.chain = false from rfl)).mpr
        (by simp [Frame.isShutdown, Frame.kind])
    · exact hq u
  | exit _ => exact hq u

theorem Core.quiet_init : Core.init.Quiet := by
  intro _ u
  rcases u with _ | u
  · exact (ChainThen.cons_not_chain (show Frame.body.chain = false from rfl)).mpr
      (by simp [Frame.isShutdown, Frame.kind])
  · simp [Core.stack, Core.init, ChainThen]

theorem Core.Reachable.quiet {s : Core} (h : s.Reachable) : s.Quiet := by
  induction h with
  | init => exact Core.quiet_init
  | step _ _ hr hs ih =>
    exact (Core.moves_of_step hs).quiet hr.lifecycle ih

/-! ### One stack -/

/-- Past the re-check and not yet done with the hook loops. -/
def Frame.started (f : Frame) : Bool := f.pending || f.running

/-- Below a pending or running call, the pending calls sit in the chain right under it. -/
def StartedOk (st : List Frame) : Prop :=
  ∀ G zs, G :: zs <:+ st → G.started = true → ChainThen Frame.pending zs

/-- How the calls of one stack nest: no running call below a pending one, the pending calls
right under each started one, and at most one running call. -/
structure NestOk (st : List Frame) : Prop where
  pairwise : st.Pairwise (fun above below => above.pending = true → below.running = false)
  started : StartedOk st
  running_le : st.countP Frame.running ≤ 1

theorem StartedOk.cons_iff {f : Frame} {fs : List Frame} :
    StartedOk (f :: fs) ↔ (f.started = true → ChainThen Frame.pending fs) ∧ StartedOk fs := by
  simp only [StartedOk, List.suffix_cons_iff]
  constructor
  · intro h
    exact ⟨fun hf => h f fs (.inl rfl) hf, fun G zs hs => h G zs (.inr hs)⟩
  · rintro ⟨h1, h2⟩ G zs (hs | hs)
    · cases hs; exact h1
    · exact h2 G zs hs

theorem NestOk.nil : NestOk [] := ⟨List.Pairwise.nil, fun _ _ h => by simp at h, by simp⟩

theorem NestOk.tail {f : Frame} {fs : List Frame} (h : NestOk (f :: fs)) : NestOk fs :=
  ⟨h.pairwise.of_cons, (StartedOk.cons_iff.mp h.started).2,
    le_trans (by simp [List.countP_cons]) h.running_le⟩

/-- A new top frame that is neither pending nor running. -/
theorem NestOk.cons_idle {f : Frame} {fs : List Frame} (h : NestOk fs) (hp : f.pending = false)
    (hr : f.running = false) : NestOk (f :: fs) := by
  refine ⟨List.pairwise_cons.mpr ⟨fun _ _ h' => by simp [hp] at h', h.pairwise⟩,
    StartedOk.cons_iff.mpr ⟨fun h' => by simp [Frame.started, hp, hr] at h', h.started⟩, ?_⟩
  simpa [List.countP_cons, hr] using h.running_le

/-- A top frame replaced by one as pending and as running. -/
theorem NestOk.replace {f f' : Frame} {fs : List Frame} (h : NestOk (f :: fs))
    (hp : f'.pending = f.pending) (hr : f'.running = f.running) : NestOk (f' :: fs) := by
  have hst : f'.started = f.started := by simp [Frame.started, hp, hr]
  refine ⟨List.pairwise_cons.mpr ⟨fun g hg h' => ?_, h.pairwise.of_cons⟩,
    StartedOk.cons_iff.mpr ⟨fun h' => (StartedOk.cons_iff.mp h.started).1 (hst ▸ h'),
      (StartedOk.cons_iff.mp h.started).2⟩, ?_⟩
  · exact (List.pairwise_cons.mp h.pairwise).1 g hg (hp ▸ h')
  · simpa [List.countP_cons, hr] using h.running_le

/-- What is left of a stack after unwinding nests as the stack did. -/
theorem NestOk.unwind {rest : List Frame} (h : NestOk rest) (c : Completion) :
    NestOk (RospyCore.unwind rest c).1 := by
  induction rest generalizing c with
  | nil => exact NestOk.nil
  | cons g gs ih =>
    rcases hr : g.resume c with g' | c'
    · rw [unwind_cons_inl gs hr]
      obtain ⟨-, hp, hr'⟩ := Frame.resume_keeps hr
      exact h.replace hp hr'
    · rw [unwind_cons_inr gs hr]
      exact ih h.tail c'

/-- A call passes its re-check with nothing running below it and every pending call in the
chain under it. -/
theorem NestOk.pend {f f' : Frame} {fs : List Frame} (h : NestOk (f :: fs))
    (hrun : ∀ g ∈ fs, g.running = false) (hchain : ChainThen Frame.pending fs)
    (hr : f'.running = false) : NestOk (f' :: fs) :=
  ⟨List.pairwise_cons.mpr ⟨fun g hg _ => hrun g hg, h.pairwise.of_cons⟩,
    StartedOk.cons_iff.mpr ⟨fun _ => hchain, (StartedOk.cons_iff.mp h.started).2⟩,
    by simpa [List.countP_cons, hr] using h.tail.running_le⟩

/-- A pending call sets `_in_shutdown` and starts running: nothing below it runs. -/
theorem NestOk.run {f f' : Frame} {fs : List Frame} (h : NestOk (f :: fs))
    (hf : f.pending = true) (hp : f'.pending = false) (hr : f'.running = true) :
    NestOk (f' :: fs) := by
  have hrun := (List.pairwise_cons.mp h.pairwise).1
  refine ⟨List.pairwise_cons.mpr ⟨fun _ _ h' => by simp [hp] at h', h.pairwise.of_cons⟩,
    StartedOk.cons_iff.mpr ⟨fun _ => (StartedOk.cons_iff.mp h.started).1 (by simp [Frame.started, hf]),
      (StartedOk.cons_iff.mp h.started).2⟩, ?_⟩
  have h0 : fs.countP Frame.running = 0 := List.countP_eq_zero.mpr fun g hg => by simp [hrun g hg hf]
  simp [List.countP_cons, h0, hr]

/-- A running call left by an exception takes every pending call of its stack with it: if
unwinding leaves no running call of a stack that had one, it leaves no pending call. -/
theorem NestOk.no_pending_of_unwind {rest : List Frame} (h : NestOk rest) (c : Completion)
    (hrun : ∃ g ∈ rest, g.running = true)
    (hgone : ∀ g ∈ (RospyCore.unwind rest c).1, g.running = false) :
    ∀ g ∈ (RospyCore.unwind rest c).1, g.pending = false := by
  induction rest generalizing c with
  | nil => simp at hrun
  | cons g gs ih =>
    obtain ⟨G, hG, hGr⟩ := hrun
    rcases hr : g.resume c with g' | c'
    · rw [unwind_cons_inl gs hr] at hgone ⊢
      exfalso
      rcases List.mem_cons.mp hG with rfl | hG
      · simp [(Frame.resume_keeps hr).2.2, hGr] at hgone
      · simp [hgone G (List.mem_cons_of_mem _ hG)] at hGr
    · rw [unwind_cons_inr gs hr] at hgone ⊢
      cases hg : g.running
      · exact ih h.tail c' ⟨G, (List.mem_cons.mp hG).resolve_left (by rintro rfl; simp_all), hGr⟩
          hgone
      · obtain ⟨e, rfl⟩ := Frame.running_resume_inr hg hr
        exact ChainThen.unwind_exc (fun _ _ _ h => (Frame.resume_keeps h).2.1)
          ((StartedOk.cons_iff.mp h.started).1 (by simp [Frame.started, hg])) e

/-! ### Every reachable state -/

/-- Every stack nests its calls. -/
def Core.Nesting (s : Core) : Prop := ∀ t, NestOk (s.stack t)

theorem pending_false_of_isShutdown {g : Frame} (h : g.isShutdown = false) : g.pending = false := by
  cases g with
  | signalShutdown => simp [Frame.isShutdown, Frame.kind] at h
  | _ => rfl

/-- A statement keeps its stack's calls nested. -/
theorem Core.Exec.nestOk {s g : Core} {t : Nat} {f : Frame} {o : Outcome} {rest : List Frame}
    (hx : s.Exec t f g o) (hl : s.Lifecycle) (hq : s.Quiet) (hst : s.stack t = f :: rest)
    (hn : NestOk (f :: rest)) : NestOk (o.stackAfter rest) := by
  cases hx
  all_goals try first
    | exact hn.tail.unwind _
    | (apply hn.tail.cons_idle <;> rfl)
    | (apply hn.replace <;> rfl)
    | (refine NestOk.cons_idle ?_ ?_ ?_ <;>
        first | rfl | (apply hn.replace <;> rfl))
    | (apply hn.run rfl <;> rfl)
  case recheckGo hg =>
    have hin : s.inShutdown = false := by simp_all
    refine hn.pend (fun g hg' => ?_) ?_ rfl
    · cases hr : g.running
      · rfl
      · have := hl.afterRequest t g (hst ▸ List.mem_cons_of_mem _ hg')
          (Frame.afterRequest_of_running hr)
        simp_all
    · exact ((hst ▸ hq hin t).of_cons_chain rfl).mono fun _ => pending_false_of_isShutdown
  case del phase =>
    cases phase <;> first | (apply hn.replace <;> rfl) | (apply hn.tail.cons_idle <;> rfl)

theorem Core.Moves.nesting {s s' : Core} {t : Nat} (hm : s.Moves t s') (hl : s.Lifecycle)
    (hq : s.Quiet) (hn : s.Nesting) : s'.Nesting := by
  have hne : ∀ {f rest}, s.stack t = f :: rest → t < s.threads.length :=
    fun h => Core.lt_of_stack_ne_nil (by simp [h])
  cases hm with
  | @exec f rest g o hst hx =>
    intro u
    rw [Core.stack_apply (hx.threads_eq ▸ hne hst)]
    split
    · exact hx.nestOk hl hq hst (hst ▸ hn t)
    · rw [hx.stack_eq]; exact hn u
  | chainCall hst =>
    refine Core.forall_stack_setStack hn (hne hst) rfl
      (((hst ▸ hn t).replace ?_ ?_).cons_idle ?_ ?_) <;> rfl
  | chainLeave hst | leave hst =>
    exact Core.forall_stack_setStack hn (hne hst) rfl ((hst ▸ hn t).tail.unwind _)
  | @call op rest hst =>
    refine Core.forall_stack_setStack hn (hne hst) (by cases op <;> rfl) ?_
    rw [← hst]
    cases op <;> exact (hn t).cons_idle rfl rfl
  | signal _ hne' =>
    exact Core.forall_stack_setStack hn (Core.lt_of_stack_ne_nil hne') rfl
      ((hn t).cons_idle rfl rfl)
  | spawn =>
    intro u
    rw [Core.stack_spawn]
    split
    · exact NestOk.nil.cons_idle rfl rfl
    · exact hn u
  | exit _ => exact hn

theorem Core.nesting_init : Core.init.Nesting := by
  intro u
  rcases u with _ | u
  · exact NestOk.nil.cons_idle rfl rfl
  · simpa [Core.stack, Core.init] using NestOk.nil

theorem Core.Reachable.nesting {s : Core} (h : s.Reachable) : s.Nesting := by
  induction h with
  | init => exact Core.nesting_init
  | step _ _ hr hs ih =>
    exact (Core.moves_of_step hs).nesting hr.lifecycle hr.quiet ih

end RospyCore
