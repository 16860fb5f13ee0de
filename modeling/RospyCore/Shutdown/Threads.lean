import Mathlib
import RospyCore.Shutdown.Late

/-!
# The tracked threads

`_add_shutdown_thread` copies `_shutdown_threads` inside `with _shutdown_lock`, removes from
the list each copied thread that is dead, and appends its own thread.  The removes find their
threads as long as nothing else takes a thread out of the list meanwhile.  Off the main thread
nothing can (`Core.Reachable.pruneOk`): another registration waits for the lock, no signal
handler runs there, and `signal_shutdown` clears the list only after `_shutdown_flag = True`
(`Core.FlagSet`).  Once the flag is set, the clear in `signal_shutdown`, which runs after the
lock is released, can fall between the copy and a remove, and the remove raises `ValueError`.
-/

namespace RospyCore

/-! ### After `_shutdown_flag = True` -/

/-- Where `signal_shutdown` is once it has set `_shutdown_flag`. -/
def ShutdownPc.afterFlag : ShutdownPc → Bool
  | .loop phase _ | .hook phase _ | .del phase => phase == .normal
  | .snapshot | .join _ _ | .delThreads | .sleep => true
  | _ => false

/-- A `signal_shutdown` frame past `_shutdown_flag = True`. -/
def Frame.afterFlag : Frame → Bool
  | .signalShutdown _ _ pc => pc.afterFlag
  | _ => false

/-- Every frame past `_shutdown_flag = True` runs with the flag set. -/
def Core.FlagSet (s : Core) : Prop :=
  ∀ t, ∀ f ∈ s.stack t, f.afterFlag = true → s.shutdownFlag = true

@[simp] theorem ShutdownPc.afterFlag_next (phase : Phase) :
    phase.next.afterFlag = (phase == .normal) := by
  cases phase <;> rfl

theorem Frame.afterFlag_resume {g g' : Frame} {c : Completion} (h : g.resume c = .inl g') :
    g'.afterFlag = g.afterFlag := by
  cases g with
  | signalShutdown call r pc =>
    cases pc <;> cases c <;> (try rename_i e; cases e) <;>
      simp only [Frame.resume, Sum.inl.injEq, reduceCtorEq] at h <;>
      (try split at h) <;> (try cases h) <;> rfl
  | _ =>
    have := (Frame.resume_inl h).1
    cases g' <;> simp_all [Frame.kind, Frame.afterFlag]

section Exec

variable {s g : Core} {t : Nat} {f : Frame} {o : Outcome}

/-- A frame a statement puts on its stack is past the flag only if its frame was, or the
statement sets the flag. -/
theorem Core.Exec.afterFlag_new (hx : s.Exec t f g o) {x : Frame} (hxo : x ∈ o.newFrames)
    (hxa : x.afterFlag = true) : f.afterFlag = true ∨ g.shutdownFlag = true := by
  cases hx <;>
    simp only [Outcome.newFrames, List.mem_cons, List.mem_singleton, List.not_mem_nil,
      or_false] at hxo <;>
    (try rcases hxo with hxo | hxo) <;> (try subst hxo) <;> (try cases ‹Phase›) <;>
    simp_all [Frame.afterFlag, ShutdownPc.afterFlag, Phase.next, Core.callShutdown]

/-- Only `_ros_signal` starts `_ros_signal` frames. -/
theorem Core.Exec.signal_new (hx : s.Exec t f g o) {x : Frame} (hxo : x ∈ o.newFrames)
    (hk : x.kind = .signal) : f.kind = .signal := by
  cases hx <;>
    simp only [Outcome.newFrames, List.mem_cons, List.mem_singleton, List.not_mem_nil,
      or_false] at hxo <;>
    (try rcases hxo with hxo | hxo) <;> (try subst hxo) <;>
    simp_all [Frame.kind, Core.callShutdown]

end Exec

section Moves

variable {s s' : Core} {t : Nat}

theorem Core.Moves.flagSet (hm : s.Moves t s') (hfs : s.FlagSet) : s'.FlagSet := by
  intro u x hx hxa
  rcases hm.mem_stack hx with hx | ⟨y, hy, c, hr⟩ | ⟨hnew, -⟩
  · exact hm.shutdownFlag_mono (hfs u x hx hxa)
  · exact hm.shutdownFlag_mono (hfs u y hy (Frame.afterFlag_resume hr ▸ hxa))
  · cases hnew with
    | exec hst hx' hs' hxo =>
      subst hs'
      rcases hx'.afterFlag_new hxo hxa with h | h
      · simpa using hx'.shutdownFlag_mono (hfs t _ (hst ▸ List.mem_cons_self _ _) h)
      · simpa using h
    | call =>
      cases (‹Op›) <;>
        simp [Core.callOp, Core.callShutdown, Frame.afterFlag, ShutdownPc.afterFlag] at hxa
    | _ => simp [Frame.afterFlag] at hxa

/-! ### Signal handlers run on the main thread -/

/-- No thread but the main one runs `_ros_signal`. -/
def Core.SignalsOnMain (s : Core) : Prop :=
  ∀ t, t ≠ 0 → ∀ f ∈ s.stack t, f.kind ≠ .signal

theorem Core.Moves.signalsOnMain (hm : s.Moves t s') (hsm : s.SignalsOnMain) :
    s'.SignalsOnMain := by
  intro u hu x hx hk
  rcases hm.mem_stack hx with hx | ⟨y, hy, c, hr⟩ | ⟨hnew, hut | rfl⟩
  · exact hsm u hu x hx hk
  · exact hsm u hu y hy ((Frame.resume_inl hr).1 ▸ hk)
  · subst hut
    cases hnew with
    | exec hst hx' _ hxo =>
      exact hsm u hu _ (hst ▸ List.mem_cons_self _ _) (hx'.signal_new hxo hk)
    | prevHandler hst => exact hsm u hu _ (hst ▸ List.mem_cons_self _ _) (by rfl)
    | call => cases (‹Op›) <;> simp [Core.callOp, Core.callShutdown, Frame.kind] at hk
    | signal h0 => exact hu h0
    | body => cases hk
  · cases hk

end Moves

/-- Only a signal handler's frame sits on a registration of a thread: with no signal handler
on a stack, such a registration can only be its top frame. -/
theorem thread_not_mem_tail {st : List Frame}
    (h : st.Chain' (fun above below => below.supports above))
    (hs : ∀ f ∈ st, f.kind ≠ .signal) : ∀ x ∈ st.tail, x.kind ≠ .thread := by
  induction st with
  | nil => simp
  | cons a rest ih =>
    intro x hx hk
    cases rest with
    | nil => simp at hx
    | cons b rest' =>
      rcases List.mem_cons.mp hx with rfl | hx
      · have hsup := (List.chain'_cons.mp h).1
        cases x <;> simp only [Frame.kind, reduceCtorEq] at hk
        simp only [Frame.supports, beq_iff_eq] at hsup
        exact hs a (List.mem_cons_self _ _) hsup
      · exact ih h.tail (fun f hf => hs f (List.mem_cons_of_mem _ hf)) x hx hk

/-! ### The pruning loop -/

/-- While `_shutdown_flag` is clear, a pruning loop off the main thread finds every thread
left in its copy in the list, as often as in the copy. -/
def Core.PruneOk (s : Core) : Prop :=
  s.shutdownFlag = false → ∀ t, t ≠ 0 → ∀ u copy i rest,
    s.stack t = .addShutdownThread u (.prune copy i) :: rest →
    ∀ y, (copy.drop i).count y ≤ s.shutdownThreads.count y

section Prune

variable {s s' : Core} {t : Nat}

@[simp] theorem Core.apply_shutdownThreads (s : Core) (t : Nat) (top : Frame) (rest : List Frame)
    (o : Outcome) : (s.apply t top rest o).shutdownThreads = s.shutdownThreads := by
  cases o <;> rfl

theorem count_drop_succ {copy : List Nat} {i other : Nat} (h : copy[i]? = some other) (y : Nat) :
    (copy.drop i).count y = (copy.drop (i + 1)).count y + if other = y then 1 else 0 := by
  obtain ⟨hi, rfl⟩ := List.getElem?_eq_some_iff.mp h
  rw [List.drop_eq_getElem_cons hi, List.count_cons]
  simp [beq_iff_eq]

/-- Below the top frame of a stack off the main thread there is no registration of a
thread. -/
theorem Core.not_thread_below (hw : s.WellFormed) (hsm : s.SignalsOnMain) {t : Nat} (ht : t ≠ 0)
    {f : Frame} {rest : List Frame} (hst : s.stack t = f :: rest) :
    ∀ x ∈ rest, x.kind ≠ .thread := by
  have hc : (f :: rest).Chain' (fun above below => below.supports above) := hst ▸ (hw t).1
  have hs : ∀ x ∈ f :: rest, x.kind ≠ .signal := hst ▸ hsm t ht
  exact thread_not_mem_tail hc hs

/-- The frames a thread keeps when its top frame ends are no registrations of a thread. -/
theorem not_thread_unwind {rest : List Frame} (h : ∀ x ∈ rest, x.kind ≠ .thread)
    (c : Completion) : ∀ x ∈ (unwind rest c).1, x.kind ≠ .thread := by
  intro x hx
  rcases mem_unwind hx with hx | ⟨y, hy, c', hr⟩
  · exact h x hx
  · exact (Frame.resume_inl hr).1 ▸ h y hy

/-- A step of another thread, or one that leaves the pruning thread's top frame alone, adds
threads to the list or leaves it, while the flag is clear. -/
theorem Core.Exec.count_shutdownThreads {g : Core} {f : Frame} {o : Outcome}
    (hx : s.Exec t f g o) (hl : s.LockOk) (hfs : s.FlagSet) (hflag : s.shutdownFlag = false)
    {rest : List Frame} (hst : s.stack t = f :: rest) {v : Nat} {x : Frame} (hxv : x ∈ s.stack v)
    (hxl : x.holdsLock = true) (hvt : v ≠ t) (y : Nat) :
    s.shutdownThreads.count y ≤ g.shutdownThreads.count y := by
  have hf : f ∈ s.stack t := hst ▸ List.mem_cons_self _ _
  have pos : ∀ {w z}, z ∈ s.stack w → z.holdsLock = true → 0 < holdCount (s.stack w) :=
    fun hz hzl => List.countP_pos_iff.mpr ⟨_, hz, hzl⟩
  cases hx
  case threadRemove =>
    exact absurd (hl.holder_unique (pos hxv hxl) (pos hf rfl)) hvt
  case delThreads => simp [hfs t _ hf rfl] at hflag
  case threadAppend => simp [List.count_append]
  all_goals exact le_rfl

/-- A statement of a thread off the main thread that leaves a pruning loop on top keeps the
loop's counts. -/
theorem Core.Exec.prune_top {g : Core} {f : Frame} {o : Outcome} (hx : s.Exec t f g o)
    (hw : s.WellFormed) (hsm : s.SignalsOnMain) (ht : t ≠ 0) {rest rest' : List Frame}
    (hst : s.stack t = f :: rest)
    (hold : ∀ u copy i rest, s.stack t = .addShutdownThread u (.prune copy i) :: rest →
      ∀ y, (copy.drop i).count y ≤ s.shutdownThreads.count y)
    {u : Nat} {copy : List Nat} {i : Nat}
    (htop : o.stackAfter rest = .addShutdownThread u (.prune copy i) :: rest') (y : Nat) :
    (copy.drop i).count y ≤ g.shutdownThreads.count y := by
  have hbelow := Core.not_thread_below hw hsm ht hst
  cases hx
  case threadAcquire =>
    obtain ⟨⟨-, rfl, rfl⟩, -⟩ := by simpa [Outcome.stackAfter] using htop
    simp
  case threadKeep hi _ =>
    obtain ⟨⟨-, rfl, rfl⟩, -⟩ := by simpa [Outcome.stackAfter] using htop
    have h1 := count_drop_succ hi y
    have h2 := hold _ _ _ _ hst y
    omega
  case threadRemove other hi _ hmem =>
    obtain ⟨⟨-, rfl, rfl⟩, -⟩ := by simpa [Outcome.stackAfter] using htop
    have h1 := count_drop_succ hi y
    have h2 := hold _ _ _ _ hst y
    have h3 : (s.shutdownThreads.erase other).count y =
        s.shutdownThreads.count y - if other = y then 1 else 0 := by
      rw [List.count_erase]; simp [beq_iff_eq]
    have h4 := List.count_pos_iff.mpr hmem
    dsimp only
    by_cases hy : other = y
    · subst hy
      simp only [if_true] at h1 h3
      omega
    · simp only [hy, if_false] at h1 h3
      omega
  all_goals simp [Outcome.stackAfter, Core.callShutdown] at htop
  all_goals
    have hmem := List.mem_cons_self (Frame.addShutdownThread u (.prune copy i)) rest'
    rw [← htop] at hmem
    exact (not_thread_unwind hbelow _ _ hmem rfl).elim

theorem Core.Moves.pruneOk (hm : s.Moves t s') (hw : s.WellFormed) (hl : s.LockOk)
    (hsm : s.SignalsOnMain) (hfs : s.FlagSet) (hp : s.PruneOk) : s'.PruneOk := by
  intro hflag' v hv u copy i rest hx y
  have hflag : s.shutdownFlag = false := by
    cases h : s.shutdownFlag
    · rfl
    · simp [hm.shutdownFlag_mono h] at hflag'
  have hne : ∀ {f rest}, s.stack t = f :: rest → t < s.threads.length :=
    fun h => Core.lt_of_stack_ne_nil (by simp [h])
  by_cases hvt : v = t
  · subst hvt
    cases hm with
    | @exec f rest₀ g o hst hx' =>
      rw [Core.stack_apply (hx'.threads_eq ▸ hne hst), if_pos rfl] at hx
      simpa using hx'.prune_top hw hsm hv hst (hp hflag v hv) hx y
    | chainCall hst =>
      rw [Core.stack_setStack (hne hst), if_pos rfl] at hx
      simp at hx
    | chainLeave hst | leave hst =>
      rw [Core.stack_leave (hne hst), if_pos rfl] at hx
      have hmem := List.mem_cons_self (Frame.addShutdownThread u (.prune copy i)) rest
      rw [← hx] at hmem
      exact absurd rfl (not_thread_unwind (Core.not_thread_below hw hsm hv hst) _ _ hmem)
    | @call op rest₀ hst =>
      rw [Core.stack_setStack (by cases op <;> exact hne hst), if_pos rfl] at hx
      cases op <;> simp [Core.callOp, Core.callShutdown] at hx
    | signal h0 => exact absurd h0 hv
    | spawn =>
      rw [Core.stack_spawn, if_neg] at hx
      · exact hp hflag v hv u copy i rest hx y
      · intro h
        simp [Core.stack, h, List.getD_eq_getElem?_getD] at hx
    | exit hst => exact hp hflag v hv u copy i rest hx y
  · have hx₀ : s.stack v = .addShutdownThread u (.prune copy i) :: rest := by
      cases hm with
      | @exec f rest₀ g o hst hx' =>
        rwa [Core.stack_apply (hx'.threads_eq ▸ hne hst), if_neg hvt, hx'.stack_eq] at hx
      | spawn =>
        rw [Core.stack_spawn, if_neg] at hx
        · exact hx
        · intro h
          simp [Core.stack, h, List.getD_eq_getElem?_getD] at hx
      | exit _ => exact hx
      | @call op rest₀ hst =>
        rw [Core.stack_setStack (by cases op <;> exact hne hst), if_neg hvt] at hx
        cases op <;> exact hx
      | signal _ hne' => rwa [Core.stack_setStack (Core.lt_of_stack_ne_nil hne'), if_neg hvt] at hx
      | chainCall hst => rwa [Core.stack_setStack (hne hst), if_neg hvt] at hx
      | chainLeave hst | leave hst => rwa [Core.stack_leave (hne hst), if_neg hvt] at hx
    refine (hp hflag v hv u copy i rest hx₀ y).trans ?_
    cases hm with
    | @exec f rest₀ g o hst hx' =>
      simpa using hx'.count_shutdownThreads hl hfs hflag hst
        (hx₀ ▸ List.mem_cons_self _ _) (by rfl) hvt y
    | call => cases (‹Op›) <;> exact le_rfl
    | _ => exact le_rfl

theorem Core.Reachable.flagSet (h : s.Reachable) : s.FlagSet := by
  induction h with
  | init =>
    intro u f hf hfa
    rcases u with _ | u
    · simp_all [Core.stack, Core.init, Frame.afterFlag]
    · simp [Core.stack, Core.init] at hf
  | step _ _ _ hs ih => exact (Core.moves_of_step hs).flagSet ih

theorem Core.Reachable.signalsOnMain (h : s.Reachable) : s.SignalsOnMain := by
  induction h with
  | init =>
    intro u hu f hf
    rcases u with _ | u
    · exact absurd rfl hu
    · simp [Core.stack, Core.init] at hf
  | step _ _ _ hs ih => exact (Core.moves_of_step hs).signalsOnMain ih

theorem Core.Reachable.pruneOk (h : s.Reachable) : s.PruneOk := by
  induction h with
  | init =>
    intro _ u hu _ _ _ _ hx
    rcases u with _ | u
    · exact absurd rfl hu
    · simp [Core.stack, Core.init] at hx
  | step _ _ hr hs ih =>
    exact (Core.moves_of_step hs).pruneOk hr.wellFormed hr.lockOk hr.signalsOnMain
      hr.flagSet ih

end Prune

/-! ### The remove -/

/-- Off the main thread, while `_shutdown_flag` is clear, `_shutdown_threads.remove(other)`
in the pruning loop finds `other`. -/
theorem prune_remove_finds {s : Core} (hs : s.Reachable) (hflag : s.shutdownFlag = false)
    (t : Nat) (ht : t ≠ 0) (u : Nat) (copy : List Nat) (i other : Nat) (rest : List Frame)
    (hst : s.stack t = .addShutdownThread u (.prune copy i) :: rest)
    (hi : copy[i]? = some other) : other ∈ s.shutdownThreads := by
  have hcopy := count_drop_succ hi other
  have hle := hs.pruneOk hflag t ht u copy i rest hst other
  simp only [if_true] at hcopy
  exact List.count_pos_iff.mp (by omega)

/-- Two threads register, the first one ends, and the second is about to prune it. -/
def pruneStart : List (Nat × Act) :=
  [(0, .spawn), (0, .spawn), (0, .call (.addShutdownThread 1)), (0, .exec), (0, .exec),
    (0, .exec), (1, .ret), (1, .exit), (2, .call (.addShutdownThread 2)), (2, .exec), (2, .exec)]

theorem prune_remove_finds_ended_thread :
    1 ∈ ((Core.init.run pruneStart).getD Core.init).shutdownThreads :=
  prune_remove_finds (@Core.Reachable.run _ _ .init pruneStart (by rfl)) (by rfl) 2 (by decide)
    2 [1] 0 1 [.body] (by rfl) (by rfl)

/-- Thread 2 passes the test of `_shutdown_flag` in `_add_shutdown_thread`; the main thread's
`signal_shutdown` then runs until `del _shutdown_threads[:]`; thread 2 copies the list
(`[1]`, thread 1 has ended), the main thread clears it, and thread 2's remove of thread 1
raises. -/
def pruneRace : List (Nat × Act) :=
  [(0, .spawn), (0, .spawn), (0, .call (.addShutdownThread 1)), (0, .exec), (0, .exec),
    (0, .exec), (1, .ret), (1, .exit), (2, .call (.addShutdownThread 2)), (2, .exec),
    (0, .call (.signalShutdown "r"))] ++ List.replicate 12 (0, .exec) ++
  [(2, .exec), (0, .exec), (0, .exec), (0, .exec), (2, .exec)]

theorem prune_race_raises : (Core.init.run pruneRace).any (fun s => s.trace.contains
    (.leave (.addShutdownThread 2 (.prune [1] 0)) (.exc .valueError))) = true := by
  decide

/-! ### Where `signal_shutdown` raises -/

/-- The main thread registers a hook with `add_shutdown_hook` and calls `signal_shutdown`;
the hook raises `KeyboardInterrupt`, which `except Exception` lets through. -/
def interruptedHook : List (Nat × Act) :=
  [(0, .call (addShutdownHook true)), (0, .exec), (0, .exec), (0, .exec),
    (0, .call (.signalShutdown "r"))] ++ List.replicate 10 (0, .exec) ++
  [(0, .raise .keyboardInterrupt)]

/-- The main thread registers itself with `_add_shutdown_thread` and calls
`signal_shutdown`, whose join loop joins the current thread. -/
def joinedCaller : List (Nat × Act) :=
  [(0, .call (.addShutdownThread 0)), (0, .exec), (0, .exec), (0, .exec),
    (0, .call (.signalShutdown "r"))] ++ List.replicate 13 (0, .exec)

theorem signal_shutdown_raises :
    (Core.init.run interruptedHook).any (fun s => s.trace.contains
      (.leave (.signalShutdown 0 "r" (.hook .normal 0)) (.exc .keyboardInterrupt)) &&
      s.hooks .normal == [0]) = true ∧
    (Core.init.run joinedCaller).any (fun s => s.trace.contains
      (.leave (.signalShutdown 0 "r" (.join [0] 0)) (.exc .runtimeError)) &&
      s.shutdownThreads == [0]) = true :=
  ⟨by decide, by decide⟩

end RospyCore
