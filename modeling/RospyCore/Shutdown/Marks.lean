import Mathlib
import RospyCore.Shutdown.Nesting

/-!
# Where the hook loops are

`signal_shutdown` walks each of the three lists by index.  The ghost mark `consumed phase` is
the index of the next hook of `phase` a loop will call: the marks follow the running loop, are
zero before `_in_shutdown = True`, and are zero when no loop runs and a call is pending
(`Core.ConsumedOk`).  A pending call therefore starts its loops at zero: the call that ran
before it either emptied the lists and reset the marks, or was left by an exception that,
passing the chain of frames under it, took the pending call with it
(`NestOk.no_pending_of_unwind`).
-/

namespace RospyCore

/-! ### Marks -/

/-- Where a running loop's `consumed` marks are. -/
def ShutdownPc.consumedOk (consumed : Phase → Nat) : ShutdownPc → Prop
  | .loop phase i => consumed phase = i ∧ ∀ p, p ≠ phase → consumed p = 0
  | .hook phase i => consumed phase = i + 1 ∧ ∀ p, p ≠ phase → consumed p = 0
  | .del phase => ∀ p, p ≠ phase → consumed p = 0
  | _ => ∀ p, consumed p = 0

/-- A frame's view of the `consumed` marks. -/
def Frame.consumedOk (consumed : Phase → Nat) : Frame → Prop
  | .signalShutdown _ _ pc => pc.consumedOk consumed
  | _ => True

/-- The `consumed` marks follow the running loop; with no loop running, a pending call finds
them at zero. -/
structure Core.ConsumedOk (s : Core) : Prop where
  running : ∀ t, ∀ f ∈ s.stack t, f.running = true → f.consumedOk s.consumed
  idle : (∀ t, ∀ f ∈ s.stack t, f.running = false) →
    (∃ t, ∃ f ∈ s.stack t, f.pending = true) → ∀ p, s.consumed p = 0
  quiet : s.inShutdown = false → ∀ p, s.consumed p = 0

/-! ### Frames -/

theorem Frame.consumedOk_resume {g g' : Frame} {c : Completion} {k : Phase → Nat}
    (h : g.resume c = .inl g') (hk : g.consumedOk k) : g'.consumedOk k := by
  cases g with
  | signalShutdown call r pc =>
    cases pc <;> cases c <;> (try rename_i e; cases e) <;>
      simp only [Frame.resume, Sum.inl.injEq, reduceCtorEq] at h <;>
      (try split at h) <;> (try cases h) <;> exact hk
  | _ =>
    have := (Frame.resume_inl h).1
    cases g' <;> simp_all [Frame.kind, Frame.consumedOk]

theorem Frame.running_of_pending {f : Frame} (h : f.pending = true) : f.running = false := by
  cases f with
  | signalShutdown _ _ pc => cases pc <;> simp_all [Frame.pending, Frame.running]
  | _ => rfl

/-- Running frames sit on the lock holder's stack, one at most. -/
theorem Core.running_on_holder {s : Core} (hl : s.LockOk) {t u : Nat} {f g : Frame}
    (hf : f ∈ s.stack t) (hfr : f.running = true) (hg : g ∈ s.stack u)
    (hgr : g.running = true) : u = t := by
  have pos : ∀ {v x}, x ∈ s.stack v → x.running = true → 0 < holdCount (s.stack v) :=
    fun hx hxr => List.countP_pos_iff.mpr ⟨_, hx, Frame.holdsLock_of_running hxr⟩
  exact hl.holder_unique (pos hg hgr) (pos hf hfr)

/-- Below a running top frame, nothing runs. -/
theorem NestOk.rest_idle {f : Frame} {rest : List Frame} (h : NestOk (f :: rest))
    (hf : f.running = true) : ∀ g ∈ rest, g.running = false := by
  have := h.running_le
  simp only [List.countP_cons, hf, if_true] at this
  intro g hg
  cases hgr : g.running
  · rfl
  · have : 0 < rest.countP Frame.running := List.countP_pos_iff.mpr ⟨g, hg, hgr⟩
    omega

/-! ### The marks -/

section Marks

variable {s : Core}

/-- With a running frame on `t`, every pending frame is on `t`. -/
theorem Core.pending_on_holder (hl : s.LockOk) {t u : Nat} {f g : Frame}
    (hf : f ∈ s.stack t) (hfr : f.running = true) (hg : g ∈ s.stack u)
    (hgp : g.pending = true) : u = t := by
  have pos : ∀ {v x}, x ∈ s.stack v → x.holdsLock = true → 0 < holdCount (s.stack v) :=
    fun hx hxr => List.countP_pos_iff.mpr ⟨_, hx, hxr⟩
  exact hl.holder_unique (pos hg (Frame.holdsLock_of_pending hgp))
    (pos hf (Frame.holdsLock_of_running hfr))

/-- Ending the top frame of `t`, and unwinding under it, keeps the marks. -/
theorem Core.ConsumedOk.done {g : Core} {t : Nat} {top : Frame} {rest : List Frame}
    (hc : s.ConsumedOk) (hn : s.Nesting) (hl : s.LockOk) (hcons : g.consumed = s.consumed)
    (hthreads : g.threads = s.threads) (hin : g.inShutdown = s.inShutdown)
    (hst : s.stack t = top :: rest) (htop : top.running = false) (c : Completion) :
    (g.apply t top rest (.done c)).ConsumedOk := by
  have ht : t < g.threads.length := hthreads ▸ Core.lt_of_stack_ne_nil (by simp [hst])
  have hstack : ∀ u, (g.apply t top rest (.done c)).stack u =
      if u = t then (unwind rest c).1 else s.stack u := fun u => by
    rw [Core.stack_apply ht]; simp [Outcome.stackAfter, Core.stack, hthreads]
  have hfrom : ∀ u, ∀ f ∈ (g.apply t top rest (.done c)).stack u, f ∈ s.stack u ∨
      (u = t ∧ ∃ g₀ ∈ rest, ∃ c', g₀.resume c' = .inl f) := by
    intro u f hf
    rw [hstack] at hf
    split at hf
    · subst u
      rcases mem_unwind hf with hf | h
      · exact .inl (hst ▸ List.mem_cons_of_mem _ hf)
      · exact .inr ⟨rfl, h⟩
    · exact .inl hf
  have hcons' : (g.apply t top rest (.done c)).consumed = s.consumed := by
    simpa [Core.apply, Core.leave] using hcons
  refine ⟨fun u f hf hfr => ?_, fun hidle ⟨u, f, hf, hfp⟩ => ?_, fun h => ?_⟩
  · rw [hcons']
    rcases hfrom u f hf with hf | ⟨-, g₀, hg₀, c', hr⟩
    · exact hc.running u f hf hfr
    · exact Frame.consumedOk_resume hr (hc.running t g₀ (hst ▸ List.mem_cons_of_mem _ hg₀)
        ((Frame.resume_keeps hr).2.2 ▸ hfr))
  · rw [hcons']
    by_cases hrun : ∃ v, ∃ x ∈ s.stack v, x.running = true
    · exfalso
      obtain ⟨v, x, hx, hxr⟩ := hrun
      by_cases hv : v = t
      · subst hv
        have hx' : x ∈ rest := by
          rcases List.mem_cons.mp (hst ▸ hx) with rfl | hx'
          · simp [htop] at hxr
          · exact hx'
        have hgone : ∀ y ∈ (unwind rest c).1, y.running = false := fun y hy =>
          hidle v y (by rw [hstack, if_pos rfl]; exact hy)
        have hnp := (hst ▸ hn v).tail.no_pending_of_unwind c ⟨x, hx', hxr⟩ hgone
        rcases hfrom u f hf with hf' | ⟨rfl, -⟩
        · have := Core.pending_on_holder hl hx hxr hf' hfp
          subst this
          rw [hstack, if_pos rfl] at hf
          simp [hnp f hf] at hfp
        · rw [hstack, if_pos rfl] at hf
          simp [hnp f hf] at hfp
      · exact absurd (hidle v x (by rw [hstack, if_neg hv]; exact hx)) (by simp [hxr])
    · push_neg at hrun
      refine hc.idle (fun v x hx => by simpa using hrun v x hx) ?_
      rcases hfrom u f hf with hf' | ⟨rfl, g₀, hg₀, c', hr⟩
      · exact ⟨u, f, hf', hfp⟩
      · exact ⟨u, g₀, hst ▸ List.mem_cons_of_mem _ hg₀, (Frame.resume_keeps hr).2.1 ▸ hfp⟩
  · rw [hcons']
    exact hc.quiet (by simpa [Core.apply, Core.leave, hin] using h)

/-- A frame of a stack whose top frame was replaced by `new`: a new frame, or an old one. -/
theorem Core.mem_setStack_append {g : Core} {t : Nat} {f : Frame} {rest new : List Frame}
    (hst : s.stack t = f :: rest) (hthreads : g.threads = s.threads) {u : Nat} {x : Frame}
    (hx : x ∈ (g.setStack t (new ++ rest)).stack u) :
    (u = t ∧ x ∈ new) ∨ (x ∈ s.stack u ∧ (u = t → x ∈ rest)) := by
  have ht : t < s.threads.length := Core.lt_of_stack_ne_nil (by simp [hst])
  rw [Core.stack_setStack (hthreads ▸ ht)] at hx
  split at hx
  · subst u
    rcases List.mem_append.mp hx with hx | hx
    · exact .inl ⟨rfl, hx⟩
    · exact .inr ⟨hst ▸ List.mem_cons_of_mem _ hx, fun _ => hx⟩
  · rename_i hu
    exact .inr ⟨by simpa [Core.stack, hthreads] using hx, fun h => absurd h hu⟩

/-- New top frames that neither run nor wait keep the marks, if the old top frame did
neither. -/
theorem Core.ConsumedOk.idleTop {g : Core} {t : Nat} {f : Frame} {rest : List Frame}
    (new : List Frame) (hc : s.ConsumedOk) (hcons : g.consumed = s.consumed)
    (hthreads : g.threads = s.threads) (hin : g.inShutdown = s.inShutdown)
    (hst : s.stack t = f :: rest) (hfr : f.running = false) (hfp : f.pending = false)
    (hnew : ∀ x ∈ new, x.running = false ∧ x.pending = false) :
    (g.setStack t (new ++ rest)).ConsumedOk := by
  have hmem := fun {u x} (hx : x ∈ (g.setStack t (new ++ rest)).stack u) =>
    Core.mem_setStack_append hst hthreads hx
  refine ⟨fun u x hx hxr => ?_, fun hidle ⟨u, x, hx, hxp⟩ => ?_, fun h => ?_⟩
  · rcases hmem hx with ⟨-, hx⟩ | ⟨hx, -⟩
    · simp [(hnew x hx).1] at hxr
    · exact hcons ▸ hc.running u x hx hxr
  · rw [show (g.setStack t (new ++ rest)).consumed = s.consumed from hcons]
    refine hc.idle (fun v y hy => ?_) ?_
    · by_cases hv : v = t
      · subst hv
        rcases List.mem_cons.mp (hst ▸ hy) with rfl | hy
        · exact hfr
        · exact hidle v y (by rw [Core.stack_setStack (hthreads ▸ Core.lt_of_stack_ne_nil
            (by simp [hst]))]; simp [hy])
      · exact hidle v y (by
          rw [Core.stack_setStack (hthreads ▸ Core.lt_of_stack_ne_nil (by simp [hst])), if_neg hv]
          simpa [Core.stack, hthreads] using hy)
    · rcases hmem hx with ⟨-, hx⟩ | ⟨hx, -⟩
      · simp [(hnew x hx).2] at hxp
      · exact ⟨u, x, hx, hxp⟩
  · exact hcons ▸ hc.quiet (hin ▸ h)

/-- The running top frame's statement keeps the marks if its new frames do. -/
theorem Core.ConsumedOk.runningTop {g : Core} {t : Nat} {f : Frame} {rest : List Frame}
    (new : List Frame) (hn : s.Nesting) (hl : s.LockOk) (hlc : s.Lifecycle)
    (hthreads : g.threads = s.threads) (hin : g.inShutdown = s.inShutdown)
    (hst : s.stack t = f :: rest) (hfr : f.running = true)
    (hnew : ∀ x ∈ new, x.running = true → x.consumedOk g.consumed)
    (hidle : (∀ x ∈ new, x.running = false) → ∀ p, g.consumed p = 0) :
    (g.setStack t (new ++ rest)).ConsumedOk := by
  have hf : f ∈ s.stack t := hst ▸ List.mem_cons_self _ _
  have hrest := (hst ▸ hn t).rest_idle hfr
  refine ⟨fun u x hx hxr => ?_, fun hall _ => hidle fun x hx => ?_, fun h => ?_⟩
  · rcases Core.mem_setStack_append hst hthreads hx with ⟨-, hx⟩ | ⟨hx, hxt⟩
    · exact hnew x hx hxr
    · have := Core.running_on_holder hl hf hfr hx hxr
      simp [hrest x (hxt this)] at hxr
  · exact hall t x (by
      rw [Core.stack_setStack (hthreads ▸ Core.lt_of_stack_ne_nil (by simp [hst])), if_pos rfl]
      exact List.mem_append_left _ hx)
  · have := hlc.afterRequest t f hf (Frame.afterRequest_of_running hfr)
    simp [Core.setStack, hin, this] at h

/-- A pending call's `_in_shutdown = True`: its loop starts with every mark at zero. -/
theorem Core.ConsumedOk.start {g : Core} {t : Nat} {f f' : Frame} {rest : List Frame}
    (hc : s.ConsumedOk) (hn : s.Nesting) (hl : s.LockOk) (hcons : g.consumed = s.consumed)
    (hthreads : g.threads = s.threads) (hin : g.inShutdown = true)
    (hst : s.stack t = f :: rest) (hfp : f.pending = true) (hf'r : f'.running = true)
    (hf' : ∀ k : Phase → Nat, (∀ p, k p = 0) → f'.consumedOk k) :
    (g.setStack t ([f'] ++ rest)).ConsumedOk := by
  have hf : f ∈ s.stack t := hst ▸ List.mem_cons_self _ _
  have hrest : ∀ x ∈ rest, x.running = false := by
    have hpw := (hn t).pairwise
    rw [hst] at hpw
    exact fun x hx => (List.pairwise_cons.mp hpw).1 x hx hfp
  have hnone : ∀ u, ∀ x ∈ s.stack u, x.running = false := fun u x hx => by
    cases hxr : x.running
    · rfl
    · have := Core.pending_on_holder hl hx hxr hf hfp
      subst this
      rcases List.mem_cons.mp (hst ▸ hx) with rfl | hx
      · simp [Frame.running_of_pending hfp] at hxr
      · simp [hrest x hx] at hxr
  have hzero := hc.idle hnone ⟨t, f, hf, hfp⟩
  refine ⟨fun u x hx hxr => ?_, fun hall _ => ?_, fun h => by simp [Core.setStack, hin] at h⟩
  · rcases Core.mem_setStack_append hst hthreads hx with ⟨-, hx⟩ | ⟨hx, -⟩
    · rw [List.mem_singleton.mp hx]; exact hf' _ (hcons ▸ hzero)
    · simp [hnone u x hx] at hxr
  · exact absurd (hall t f' (by
      rw [Core.stack_setStack (hthreads ▸ Core.lt_of_stack_ne_nil (by simp [hst])), if_pos rfl]
      simp)) (by simp [hf'r])

/-- Before the request the marks are zero, whatever the top frames become. -/
theorem Core.ConsumedOk.quietTop {g : Core} {t : Nat} {f : Frame} {rest : List Frame}
    (new : List Frame) (hc : s.ConsumedOk) (hcons : g.consumed = s.consumed)
    (hthreads : g.threads = s.threads) (hin : s.inShutdown = false)
    (hst : s.stack t = f :: rest) (hnew : ∀ x ∈ new, x.running = false) :
    (g.setStack t (new ++ rest)).ConsumedOk := by
  have hzero : ∀ p, (g.setStack t (new ++ rest)).consumed p = 0 := fun p => by
    simp [Core.setStack, hcons, hc.quiet hin p]
  refine ⟨fun u x hx hxr => ?_, fun _ _ => hzero, fun _ => hzero⟩
  rcases Core.mem_setStack_append hst hthreads hx with ⟨-, hx⟩ | ⟨hx, -⟩
  · simp [hnew x hx] at hxr
  · exact hcons ▸ hc.running u x hx hxr

/-- A statement keeps the marks with the running loop. -/
theorem Core.Exec.consumedOk {g : Core} {t : Nat} {f : Frame} {o : Outcome} {rest : List Frame}
    (hx : s.Exec t f g o) (hr : s.Reachable) (hc : s.ConsumedOk) (hst : s.stack t = f :: rest) :
    (g.apply t f rest o).ConsumedOk := by
  have hn := hr.nesting
  have hl := hr.lockOk
  have hlc := hr.lifecycle
  have hf : f ∈ s.stack t := hst ▸ List.mem_cons_self _ _
  have hfc : f.running = true → f.consumedOk s.consumed := hc.running t f hf
  cases hx
  case recheckGo hg =>
    exact hc.quietTop [_] rfl rfl (by simp_all) hst (by simp [Frame.running])
  all_goals try
    first
    | exact hc.done hn hl (by rfl) (by rfl) (by rfl) hst rfl _
    | exact hc.idleTop [_] (by rfl) (by rfl) (by rfl) hst rfl rfl
        (by simp [Frame.running, Frame.pending])
    | exact hc.idleTop [_, _] (by rfl) (by rfl) (by rfl) hst rfl rfl
        (by simp [Frame.running, Frame.pending, Core.callShutdown])
  case setInShutdown =>
    exact hc.start hn hl rfl rfl rfl hst rfl rfl fun k hk => ⟨hk _, fun p _ => hk p⟩
  case invoke phase i h hh =>
    obtain ⟨h1, h2⟩ := hfc rfl
    refine Core.ConsumedOk.runningTop [_, _] hn hl hlc rfl rfl hst rfl ?_ (by simp [Frame.running])
    simp only [List.mem_cons, List.mem_singleton, forall_eq_or_imp, forall_eq, List.not_mem_nil]
    refine ⟨fun h => by simp [Frame.running] at h, fun _ => ?_, fun _ h => h.elim⟩
    refine ⟨by simp, fun p hp => ?_⟩
    simp [Function.update_noteq hp, h2 p hp]
  case loopEnd phase i hh =>
    refine Core.ConsumedOk.runningTop [_] hn hl hlc rfl rfl hst rfl ?_ (by simp [Frame.running])
    simp only [List.mem_singleton, forall_eq]
    exact fun _ => (hfc rfl).2
  case del phase =>
    have h2 := hfc rfl
    refine Core.ConsumedOk.runningTop [_] hn hl hlc rfl rfl hst rfl ?_ ?_
    · simp only [List.mem_singleton, forall_eq]
      intro hr'
      cases phase
      · refine ⟨by simp [h2 .pre (by decide)], fun p hp => ?_⟩
        cases p <;> simp_all [Function.update]
        exact h2 .normal (by decide)
      · exact fun p => by cases p <;> simp_all [Function.update] <;> exact h2 _ (by decide)
      · simp [Phase.next, Frame.running] at hr'
    · intro _ p
      by_cases hp : p = phase
      · subst hp; simp
      · simp [Function.update_noteq hp, h2 p hp]
  case setFlag =>
    refine Core.ConsumedOk.runningTop [_] hn hl hlc rfl rfl hst rfl ?_ (by simp [Frame.running])
    simp only [List.mem_singleton, forall_eq]
    exact fun _ => ⟨hfc rfl .normal, fun p _ => hfc rfl p⟩

/-- A frame that neither runs nor waits, pushed on a stack, keeps the marks. -/
theorem Core.ConsumedOk.push (hc : s.ConsumedOk) {t : Nat} (ht : t < s.threads.length)
    {x : Frame} (hxr : x.running = false) (hxp : x.pending = false) :
    (s.setStack t (x :: s.stack t)).ConsumedOk := by
  have hmem : ∀ {u y}, y ∈ (s.setStack t (x :: s.stack t)).stack u → y = x ∨ y ∈ s.stack u := by
    intro u y hy
    rw [Core.stack_setStack ht] at hy
    split at hy
    · subst u; exact List.mem_cons.mp hy
    · exact .inr hy
  have hold : ∀ {u y}, y ∈ s.stack u → y ∈ (s.setStack t (x :: s.stack t)).stack u := by
    intro u y hy
    rw [Core.stack_setStack ht]
    split
    · subst u; exact List.mem_cons_of_mem _ hy
    · exact hy
  refine ⟨fun u y hy hyr => ?_, fun hidle ⟨u, y, hy, hyp⟩ => ?_, hc.quiet⟩
  · rcases hmem hy with rfl | hy
    · simp [hxr] at hyr
    · exact hc.running u y hy hyr
  · refine hc.idle (fun v z hz => hidle v z (hold hz)) ?_
    rcases hmem hy with rfl | hy
    · simp [hxp] at hyp
    · exact ⟨u, y, hy, hyp⟩

/-- Every step keeps the marks with the running loop. -/
theorem Core.Moves.consumedOk {s' : Core} {t : Nat} (hm : s.Moves t s') (hr : s.Reachable)
    (hc : s.ConsumedOk) : s'.ConsumedOk := by
  have hn := hr.nesting
  have hl := hr.lockOk
  cases hm with
  | exec hst hx => exact hx.consumedOk hr hc hst
  | chainCall hst =>
    exact hc.idleTop [_, _] rfl rfl rfl hst rfl rfl (by simp [Frame.running, Frame.pending])
  | chainLeave hst | leave hst => exact hc.done hn hl rfl rfl rfl hst rfl _
  | call hst =>
    rename_i op _
    cases op <;> exact hc.idleTop [_, _] rfl rfl rfl hst rfl rfl
      (by simp [Frame.running, Frame.pending, Core.callOp, Core.callShutdown])
  | signal _ hne => exact hc.push (Core.lt_of_stack_ne_nil hne) rfl rfl
  | spawn =>
    have hmem : ∀ {u y}, y ∈ ({ s with threads := s.threads ++ [[.body]] } : Core).stack u →
        y = .body ∨ y ∈ s.stack u := by
      intro u y hy
      rw [Core.stack_spawn] at hy
      split at hy
      · exact .inl (List.mem_singleton.mp hy)
      · exact .inr hy
    refine ⟨fun u y hy hyr => ?_, fun hidle ⟨u, y, hy, hyp⟩ => ?_, hc.quiet⟩
    · rcases hmem hy with rfl | hy
      · simp [Frame.running] at hyr
      · exact hc.running u y hy hyr
    · refine hc.idle (fun v z hz => hidle v z ?_) ?_
      · rw [Core.stack_spawn]
        split
        · rename_i hv
          subst hv
          simp [Core.stack, List.getD_eq_getElem?_getD, List.getElem?_eq_none (le_refl _)] at hz
        · exact hz
      · rcases hmem hy with rfl | hy
        · simp [Frame.pending] at hyp
        · exact ⟨u, y, hy, hyp⟩
  | exit _ => exact ⟨hc.1, hc.2, hc.3⟩

theorem Core.consumedOk_init : Core.init.ConsumedOk := by
  refine ⟨fun u f hf hfr => ?_, fun _ _ _ => rfl, fun _ _ => rfl⟩
  rcases u with _ | u
  · simp_all [Core.stack, Core.init, Frame.running]
  · simp [Core.stack, Core.init] at hf

theorem Core.Reachable.consumedOk (h : s.Reachable) : s.ConsumedOk := by
  induction h with
  | init => exact Core.consumedOk_init
  | step _ _ hr hs ih => exact (Core.moves_of_step hs).consumedOk hr ih

end Marks

end RospyCore
