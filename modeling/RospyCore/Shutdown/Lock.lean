import Mathlib
import RospyCore.Shutdown.Steps

/-!
# `_shutdown_lock`

`_shutdown_lock` is a reentrant lock.  In every reachable state its level for each thread
is the number of that thread's frames inside `with _shutdown_lock` (`Core.LockOk`): a frame
acquires a level as it enters the block and gives it back as it leaves, by its last
statement or by an exception.  So at most one thread has frames inside the block
(`Core.LockOk.holder_unique`).
-/

namespace RospyCore

/-- The levels of `_shutdown_lock` a stack holds. -/
def holdCount (st : List Frame) : Nat := st.countP Frame.holdsLock

/-- The level of the lock held by thread `u`. -/
def lockLevel : Option (Nat × Nat) → Nat → Nat
  | some (o, n), u => if o = u then n else 0
  | none, _ => 0

/-- A held lock has a positive level. -/
def LockPos (lock : Option (Nat × Nat)) : Prop := ∀ o n, lock = some (o, n) → 0 < n

/-- Each thread holds the lock as often as it has frames inside `with _shutdown_lock`. -/
structure Core.LockOk (s : Core) : Prop where
  level : ∀ u, holdCount (s.stack u) = lockLevel s.shutdownLock u
  pos : LockPos s.shutdownLock

/-! ### The lock -/

theorem lockLevel_acquire {lock l : Option (Nat × Nat)} {t : Nat} (h : acquireLock lock t = some l)
    (u : Nat) : lockLevel l u = lockLevel lock u + if u = t then 1 else 0 := by
  rcases lock with _ | ⟨o, n⟩
  · cases h; simp only [lockLevel]; split_ifs <;> omega
  · simp only [acquireLock] at h
    split at h
    · cases h; simp only [lockLevel]; split_ifs <;> omega
    · cases h

theorem lockPos_acquire {lock l : Option (Nat × Nat)} {t : Nat} (h : acquireLock lock t = some l) :
    LockPos l := by
  rcases lock with _ | ⟨o, n⟩
  · cases h; intro o n h; cases h; exact Nat.one_pos
  · simp only [acquireLock] at h
    split at h
    · cases h; intro o n h; cases h; exact Nat.succ_pos _
    · cases h

theorem lockLevel_release {lock : Option (Nat × Nat)} {k t : Nat} (hp : LockPos lock)
    (hk : k ≤ lockLevel lock t) (u : Nat) :
    lockLevel (releaseLock lock k) u = if u = t then lockLevel lock t - k else lockLevel lock u := by
  rcases lock with _ | ⟨o, n⟩
  · simp [releaseLock, lockLevel]
  · have hn := hp o n rfl
    simp only [lockLevel] at hk
    simp only [releaseLock, lockLevel]
    by_cases hk0 : k = 0
    · subst hk0; simp [Nat.not_le.mpr hn]; split_ifs <;> simp_all
    · have ho : o = t := by by_contra h; simp [h] at hk; omega
      subst ho
      split_ifs <;> simp_all

theorem lockPos_release {lock : Option (Nat × Nat)} (hp : LockPos lock) (k : Nat) :
    LockPos (releaseLock lock k) := by
  rcases lock with _ | ⟨o, n⟩
  · intro _ _ h; cases h
  · intro o' n' h
    simp only [releaseLock] at h
    split at h
    · cases h
    · cases h; omega

/-! ### Frames -/

theorem Frame.holdsLock_resume {g g' : Frame} {c : Completion} (h : g.resume c = .inl g') :
    g'.holdsLock = g.holdsLock := by
  cases g with
  | body => cases h; rfl
  | signalShutdown call r pc =>
    cases pc <;> cases c <;> (try rename_i e; cases e) <;>
      simp only [Frame.resume, Sum.inl.injEq, reduceCtorEq] at h <;>
      (try split at h) <;> (try cases h) <;> rfl
  | addShutdownHook h' phase pc =>
    cases pc <;> cases c <;> simp only [Frame.resume, Sum.inl.injEq, reduceCtorEq] at h <;>
      cases h <;> rfl
  | addShutdownThread u pc =>
    cases c with
    | ret => cases h; rfl
    | exc e => cases h
  | rosSignal sig pc =>
    cases pc <;> cases c <;> (try rename_i e; cases e) <;>
      simp only [Frame.resume, Sum.inl.injEq, reduceCtorEq] at h <;> cases h <;> rfl

/-- Unwinding gives back exactly the levels of the frames that end. -/
theorem holdCount_unwind (rest : List Frame) (c : Completion) :
    (unwind rest c).2.countP (fun e => e.1.holdsLock) + holdCount (unwind rest c).1 =
      holdCount rest :=
  unwind_countP _ (fun _ _ _ h => Frame.holdsLock_resume h) rest c

/-! ### Every reachable state -/

theorem Core.LockOk.of_stack {s s' : Core} (hl : s.LockOk) (t : Nat)
    (hstack : ∀ u, u ≠ t → s'.stack u = s.stack u)
    (hlevel : ∀ u, u ≠ t → lockLevel s'.shutdownLock u = lockLevel s.shutdownLock u)
    (hnew : holdCount (s'.stack t) = lockLevel s'.shutdownLock t)
    (hpos : LockPos s'.shutdownLock) : s'.LockOk := by
  refine ⟨fun u => ?_, hpos⟩
  by_cases hu : u = t
  · exact hu ▸ hnew
  · rw [hstack u hu, hlevel u hu]; exact hl.level u

/-- Leaving frames gives back their levels. -/
theorem Core.LockOk.leave {s : Core} {t : Nat} {top : Frame} {rest : List Frame}
    (hl : s.LockOk) (hst : s.stack t = top :: rest) (c : Completion) :
    (s.leave t top rest c).LockOk := by
  have ht := Core.lt_of_stack_ne_nil (by simp [hst] : s.stack t ≠ [])
  have hcount := holdCount_unwind rest c
  have hlev := hl.level t
  rw [hst] at hlev
  simp only [holdCount, List.countP_cons] at hcount hlev
  have hk : ((top, c) :: (unwind rest c).2).countP (fun e => e.1.holdsLock) ≤
      lockLevel s.shutdownLock t := by
    simp only [List.countP_cons]; omega
  refine hl.of_stack t (fun u hu => by simp [Core.stack_leave ht, hu])
    (fun u hu => by simp only [Core.leave, lockLevel_release hl.pos hk, if_neg hu]) ?_
    (lockPos_release hl.pos _)
  rw [Core.stack_leave ht, if_pos rfl]
  simp only [Core.leave]
  rw [lockLevel_release hl.pos hk t, if_pos rfl]
  simp only [List.countP_cons, holdCount] at hk ⊢
  omega

theorem Core.LockOk.congr {s g : Core} (hl : s.LockOk) (hlock : g.shutdownLock = s.shutdownLock)
    (hthreads : g.threads = s.threads) : g.LockOk :=
  ⟨fun u => by simpa [Core.stack, hlock, hthreads] using hl.level u, hlock ▸ hl.pos⟩

theorem Core.LockOk.setStack {s g : Core} {t : Nat} {st : List Frame} (hl : s.LockOk)
    (ht : t < s.threads.length) (hthreads : g.threads = s.threads)
    (hlevel : ∀ u, u ≠ t → lockLevel g.shutdownLock u = lockLevel s.shutdownLock u)
    (hnew : holdCount st = lockLevel g.shutdownLock t) (hpos : LockPos g.shutdownLock) :
    (g.setStack t st).LockOk :=
  hl.of_stack t
    (fun u hu => by rw [Core.stack_setStack (hthreads ▸ ht), if_neg hu]; simp [Core.stack, hthreads])
    hlevel (by rw [Core.stack_setStack (hthreads ▸ ht), if_pos rfl]; exact hnew) hpos

theorem Core.LockOk.done {s g : Core} {t : Nat} {top : Frame} {rest : List Frame}
    (hl : s.LockOk) (hlock : g.shutdownLock = s.shutdownLock) (hthreads : g.threads = s.threads)
    (hst : s.stack t = top :: rest) (c : Completion) : (g.apply t top rest (.done c)).LockOk :=
  (hl.congr hlock hthreads).leave (by simpa [Core.stack, hthreads] using hst) c

/-- A statement keeps the lock's levels. -/
theorem Core.Exec.lockOk {s g : Core} {t : Nat} {f : Frame} {o : Outcome} {rest : List Frame}
    (hx : s.Exec t f g o) (hl : s.LockOk) (hst : s.stack t = f :: rest) :
    (g.apply t f rest o).LockOk := by
  have ht := Core.lt_of_stack_ne_nil (by simp [hst] : s.stack t ≠ [])
  have hlev := hl.level t
  rw [hst] at hlev
  simp only [holdCount, List.countP_cons] at hlev
  have hsame : ∀ {g : Core} {st : List Frame}, g.shutdownLock = s.shutdownLock →
      g.threads = s.threads → st.countP Frame.holdsLock = (f :: rest).countP Frame.holdsLock →
      (g.setStack t st).LockOk := fun hlock hthreads hc =>
    hl.setStack ht hthreads (fun u _ => by rw [hlock]) (by
      rw [holdCount, hc, hlock, List.countP_cons]; exact hlev) (hlock ▸ hl.pos)
  have hacquire : ∀ {l : Option (Nat × Nat)} {f' : Frame}, acquireLock s.shutdownLock t = some l →
      f.holdsLock = false → f'.holdsLock = true →
      (({ s with shutdownLock := l } : Core).setStack t (f' :: rest)).LockOk := by
    intro l f' hacq hf hf'
    refine hl.setStack ht rfl (fun u hu => by simp [lockLevel_acquire hacq u, hu]) ?_
      (lockPos_acquire hacq)
    simp only [hf, hf', lockLevel_acquire hacq t, if_pos rfl, holdCount, List.countP_cons,
      Bool.false_eq_true, if_false, if_true] at hlev ⊢
    omega
  cases hx
  all_goals try first
    | exact hl.done (by rfl) (by rfl) hst _
    | (refine hsame rfl rfl ?_; simp [Frame.holdsLock, Core.callShutdown]; done)
  case del phase => cases phase <;> (refine hsame rfl rfl ?_; simp [Frame.holdsLock, Phase.next])
  all_goals try (rename_i hacq; exact hacquire hacq rfl rfl)
  case snapshot =>
    have hk : 1 ≤ lockLevel s.shutdownLock t := by simp [Frame.holdsLock] at hlev; omega
    refine hl.setStack ht rfl (fun u hu => by simp only [lockLevel_release hl.pos hk u, if_neg hu])
      ?_ (lockPos_release hl.pos 1)
    simp only [lockLevel_release hl.pos hk t, if_pos rfl, holdCount, List.countP_cons]
    simp only [Frame.holdsLock, Bool.false_eq_true, if_false, if_true] at hlev ⊢
    omega

theorem Core.Moves.lockOk {s s' : Core} {t : Nat} (hm : s.Moves t s') (hl : s.LockOk) :
    s'.LockOk := by
  have hne : ∀ {f rest}, s.stack t = f :: rest → t < s.threads.length :=
    fun h => Core.lt_of_stack_ne_nil (by simp [h])
  have hlev := hl.level t
  cases hm with
  | exec hst hx => exact hx.lockOk hl hst
  | chainCall hst =>
    refine hl.setStack (hne hst) rfl (fun _ _ => rfl) ?_ hl.pos
    rw [← hlev, hst]; simp [holdCount, Frame.holdsLock]
  | chainLeave hst | leave hst => exact hl.leave hst _
  | @call op rest hst =>
    refine hl.setStack (hne hst) (by cases op <;> rfl) (fun _ _ => by cases op <;> rfl) ?_
      (by cases op <;> exact hl.pos)
    rw [show lockLevel (s.callOp op).1.shutdownLock t = lockLevel s.shutdownLock t by
      cases op <;> rfl, ← hlev, hst]
    cases op <;> simp [holdCount, Frame.holdsLock, Core.callOp, Core.callShutdown]
  | signal _ hne' =>
    refine hl.setStack (Core.lt_of_stack_ne_nil hne') rfl (fun _ _ => rfl) ?_ hl.pos
    rw [← hlev]; simp [holdCount, Frame.holdsLock]
  | spawn =>
    refine hl.of_stack s.threads.length (fun u hu => by rw [Core.stack_spawn, if_neg hu])
      (fun _ _ => rfl) ?_ hl.pos
    rw [Core.stack_spawn, if_pos rfl, ← hl.level]
    simp [holdCount, Frame.holdsLock, Core.stack, List.getD_eq_getElem?_getD]
  | exit _ => exact hl.congr rfl rfl

theorem Core.lockOk_init : Core.init.LockOk := by
  refine ⟨fun u => ?_, fun _ _ h => by cases h⟩
  rcases u with _ | u <;> simp [Core.stack, Core.init, holdCount, lockLevel, Frame.holdsLock]

theorem Core.Reachable.lockOk {s : Core} (h : s.Reachable) : s.LockOk := by
  induction h with
  | init => exact Core.lockOk_init
  | step _ _ _ hs ih => exact (Core.moves_of_step hs).lockOk ih

/-- At most one thread has frames inside `with _shutdown_lock`. -/
theorem Core.LockOk.holder_unique {s : Core} (hl : s.LockOk) {u v : Nat}
    (hu : 0 < holdCount (s.stack u)) (hv : 0 < holdCount (s.stack v)) : u = v := by
  rw [hl.level] at hu hv
  rcases h : s.shutdownLock with _ | ⟨o, n⟩ <;> simp only [h, lockLevel] at hu hv
  · omega
  · split_ifs at hu hv <;> omega

end RospyCore
