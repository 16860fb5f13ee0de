import Mathlib
import RospyCore.Shutdown.Hooks
import RospyCore.Shutdown.Late

/-!
# Registered hooks are called or kept

`_add_shutdown_hook` appends a hook to its list, or calls it at once when it finds
`_shutdown_flag` set.  A loop of `signal_shutdown` calls every hook that is in its list before
the loop ends, appended ones included, and `del <hooks>[:]` drops only those and the hooks
appended between the end of the loop and the `del` (`Frame.keptOk`).  So a hook whose
registration returned has been called, is still in its list, or was dropped by such a `del`
(`Core.KeptOk`).

The lists are not closed by `del`: a hook appended later (by a hook of a later phase, or by a
thread whose test of `_shutdown_flag` came before the flag was set) stays in its list.  Once
`_in_shutdown` is set and no call is between its locked re-check and the end of its loops
(`Core.Settled`), no step calls a listed hook or takes one out.
-/

namespace RospyCore

/-! ### Calls of hooks -/

/-- Call `call` of `signal_shutdown`, with reason `reason`, has called hook `h` of list
`phase`. -/
def CalledBy (trace : List Event) (call : Nat) (reason : String) (h : Nat) (phase : Phase) :
    Prop :=
  ∃ rq sd, Event.invoke h phase (phase.arg reason) (some call) rq sd ∈ trace

/-- `_add_shutdown_hook` has called hook `h` of list `phase` at once. -/
def CalledAtOnce (trace : List Event) (h : Nat) (phase : Phase) : Prop :=
  ∃ rq sd, Event.invoke h phase (phase.arg "already shutdown") none rq sd ∈ trace

/-- Hook `h` of list `phase` has been called, from its list or at once. -/
def Called (trace : List Event) (h : Nat) (phase : Phase) : Prop :=
  (∃ call reason, CalledBy trace call reason h phase) ∨ CalledAtOnce trace h phase

/-- Hook `h` was dropped by a `del` of list `phase`, and a registration of it returned
between the end of the loop over that list and the `del`. -/
def DroppedLate (trace : List Event) (h : Nat) (phase : Phase) : Prop :=
  ∃ call pre mid post hooks,
    trace = pre ++ Event.loopEnd call phase :: (mid ++ Event.drain call phase hooks :: post) ∧
    h ∈ hooks ∧ ∃ hk pc, hk.id = h ∧ Event.leave (.addShutdownHook hk phase pc) .ret ∈ mid

section Mono

variable {trace trace' : List Event} {h : Nat} {phase : Phase}

theorem CalledBy.mono (ht : trace <+: trace') {call : Nat} {r : String}
    (hc : CalledBy trace call r h phase) : CalledBy trace' call r h phase :=
  let ⟨rq, sd, he⟩ := hc; ⟨rq, sd, ht.subset he⟩

theorem CalledAtOnce.mono (ht : trace <+: trace') (hc : CalledAtOnce trace h phase) :
    CalledAtOnce trace' h phase :=
  let ⟨rq, sd, he⟩ := hc; ⟨rq, sd, ht.subset he⟩

theorem Called.mono (ht : trace <+: trace') (hc : Called trace h phase) :
    Called trace' h phase :=
  hc.imp (fun ⟨c, r, h⟩ => ⟨c, r, h.mono ht⟩) (·.mono ht)

theorem DroppedLate.mono (ht : trace <+: trace') (hd : DroppedLate trace h phase) :
    DroppedLate trace' h phase := by
  obtain ⟨new, rfl⟩ := ht
  obtain ⟨c, pre, mid, post, hs, rfl, hmem, hreg⟩ := hd
  exact ⟨c, pre, mid, post ++ new, hs, by simp, hmem, hreg⟩

end Mono

/-! ### Frames -/

/-- What a frame knows of the lists: a loop has called the hooks of its list before its
index; at `del`, the hooks after those the loop called were registered since the loop ended;
a registration that calls its hook at once has called it. -/
def Frame.keptOk (hooks : Phase → List Nat) (trace : List Event) : Frame → Prop
  | .signalShutdown call r (.loop phase i) =>
    i ≤ (hooks phase).length ∧ ∀ h ∈ (hooks phase).take i, CalledBy trace call r h phase
  | .signalShutdown call r (.hook phase i) =>
    i < (hooks phase).length ∧ ∀ h ∈ (hooks phase).take (i + 1), CalledBy trace call r h phase
  | .signalShutdown call r (.del phase) =>
    ∃ k ≤ (hooks phase).length, (∀ h ∈ (hooks phase).take k, CalledBy trace call r h phase) ∧
      ∃ pre mid, trace = pre ++ Event.loopEnd call phase :: mid ∧
        ∀ h ∈ (hooks phase).drop k,
          ∃ hk pc, hk.id = h ∧ Event.leave (.addShutdownHook hk phase pc) .ret ∈ mid
  | .addShutdownHook h phase .immediate => CalledAtOnce trace h.id phase
  | _ => True

/-- How a step other than `del` changes the lists and the trace: it extends the trace, and
appends to a list only hooks whose registration returned in that step. -/
def Grows (hooks hooks' : Phase → List Nat) (trace trace' : List Event) : Prop :=
  ∃ new, trace' = trace ++ new ∧ ∀ p, ∃ l, hooks' p = hooks p ++ l ∧
    ∀ x ∈ l, ∃ hk pc, hk.id = x ∧ Event.leave (.addShutdownHook hk p pc) .ret ∈ new

theorem Frame.keptOk_grows {hooks hooks' : Phase → List Nat} {trace trace' : List Event}
    (hg : Grows hooks hooks' trace trace') {f : Frame} (hf : f.keptOk hooks trace) :
    f.keptOk hooks' trace' := by
  obtain ⟨new, rfl, hl⟩ := hg
  have ht : trace <+: trace ++ new := List.prefix_append _ _
  have take_eq : ∀ p i, i ≤ (hooks p).length → (hooks' p).take i = (hooks p).take i :=
    fun p i hi => by obtain ⟨l, hp, -⟩ := hl p; rw [hp, List.take_append_of_le_length hi]
  have len_le : ∀ p, (hooks p).length ≤ (hooks' p).length :=
    fun p => by obtain ⟨l, hp, -⟩ := hl p; simp [hp]
  cases f with
  | signalShutdown call r pc =>
    cases pc
    case loop phase i =>
      obtain ⟨hi, hc⟩ := hf
      exact ⟨hi.trans (len_le phase), fun h hm => (hc h (take_eq phase i hi ▸ hm)).mono ht⟩
    case hook phase i =>
      obtain ⟨hi, hc⟩ := hf
      exact ⟨hi.trans_le (len_le phase), fun h hm => (hc h (take_eq phase _ hi ▸ hm)).mono ht⟩
    case del phase =>
      obtain ⟨k, hk, hc, pre, mid, htr, hreg⟩ := hf
      obtain ⟨l, hp, hnew⟩ := hl phase
      refine ⟨k, hk.trans (len_le phase), fun h hm => (hc h (take_eq phase k hk ▸ hm)).mono ht,
        pre, mid ++ new, by simp [htr], fun h hm => ?_⟩
      rw [hp, List.drop_append_of_le_length hk, List.mem_append] at hm
      rcases hm with hm | hm
      · obtain ⟨hk', pc, hid, he⟩ := hreg h hm
        exact ⟨hk', pc, hid, List.mem_append_left _ he⟩
      · obtain ⟨hk', pc, hid, he⟩ := hnew h hm
        exact ⟨hk', pc, hid, List.mem_append_right _ he⟩
    all_goals trivial
  | addShutdownHook h phase pc => cases pc <;> first | exact CalledAtOnce.mono ht hf | trivial
  | _ => trivial

/-- A frame outside the hook loops knows nothing of the lists. -/
theorem Frame.keptOk_idle {hooks hooks' : Phase → List Nat} {trace trace' : List Event}
    (ht : trace <+: trace') {f : Frame} (hr : f.running = false) (hf : f.keptOk hooks trace) :
    f.keptOk hooks' trace' := by
  cases f with
  | signalShutdown call r pc => cases pc <;> trivial
  | addShutdownHook h phase pc => cases pc <;> first | exact CalledAtOnce.mono ht hf | trivial
  | _ => trivial

theorem Frame.keptOk_resume {g g' : Frame} {c : Completion} (h : g.resume c = .inl g')
    {hooks : Phase → List Nat} {trace : List Event} (hg : g.keptOk hooks trace) :
    g'.keptOk hooks trace := by
  cases g with
  | signalShutdown call r pc =>
    cases pc <;> cases c <;> (try rename_i e; cases e) <;>
      simp only [Frame.resume, Sum.inl.injEq, reduceCtorEq] at h <;>
      (try split at h) <;> (try cases h) <;> exact hg
  | addShutdownHook h' phase pc =>
    cases pc <;> cases c <;> simp only [Frame.resume, Sum.inl.injEq, reduceCtorEq] at h <;>
      cases h <;> exact hg
  | _ =>
    have := (Frame.resume_inl h).1
    cases g' <;> simp_all [Frame.kind, Frame.keptOk]

/-! ### What a step adds -/

section Exec

variable {s g : Core} {t : Nat} {f : Frame} {o : Outcome}

/-- The frames a statement puts on its stack know what they should of the lists. -/
theorem Core.Exec.keptOk_new (hx : s.Exec t f g o) (hf : f.keptOk s.hooks s.trace) {x : Frame}
    (hxo : x ∈ o.newFrames) : x.keptOk g.hooks g.trace := by
  have ht : ∀ new, s.trace <+: s.trace ++ new := List.prefix_append _
  cases hx <;>
    simp only [Outcome.newFrames, List.mem_cons, List.mem_singleton, List.not_mem_nil,
      or_false] at hxo <;>
    (try rcases hxo with hxo | hxo) <;> (try subst hxo)
  case invoke.inl call r phase i h hh =>
    obtain ⟨hi, hc⟩ := hf
    refine ⟨(List.getElem?_eq_some_iff.mp hh).1, fun h' hm => ?_⟩
    rw [List.take_succ, hh, Option.toList_some, List.mem_append, List.mem_singleton] at hm
    rcases hm with hm | rfl
    · exact (hc h' hm).mono (ht _)
    · exact ⟨_, _, List.mem_append_right _ (List.mem_singleton_self _)⟩
  case loopEnd call r phase i hh =>
    obtain ⟨hi, hc⟩ := hf
    have hlen : (s.hooks phase).length ≤ i := List.getElem?_eq_none_iff.mp hh
    refine ⟨i, hi, fun h' hm => (hc h' hm).mono (ht _), s.trace, [], rfl, fun h' hm => ?_⟩
    simp [List.drop_eq_nil_of_le hlen] at hm
  case del call r phase => cases phase <;> simp [Phase.next, Frame.keptOk]
  case hookImmediate.inl h phase _ _ =>
    exact ⟨_, _, List.mem_append_right _ (List.mem_singleton_self _)⟩
  case setInShutdown | setFlag => exact ⟨Nat.zero_le _, by simp⟩
  all_goals trivial

/-- A statement's own events are no ends of frames. -/
theorem Core.Exec.no_leave (hx : s.Exec t f g o) :
    ∃ new, g.trace = s.trace ++ new ∧ ∀ e ∈ new, ∀ x c, e ≠ .leave x c := by
  cases hx
  all_goals first
    | exact ⟨[], (List.append_nil _).symm, by simp⟩
    | exact ⟨_, rfl, by simp [Core.callShutdown]⟩

end Exec

/-- A frame that ends while unwinding is one of the old frames, left as it resumed. -/
theorem resume_of_mem_unwind_ended {st : List Frame} {c : Completion} {e : Frame × Completion}
    (h : e ∈ (unwind st c).2) : e.1 ∈ st ∧ ∃ c', e.1.resume c' = .inr e.2 := by
  induction st generalizing c with
  | nil => simp at h
  | cons g fs ih =>
    rcases hr : g.resume c with g' | c'
    · simp [unwind_cons_inl fs hr] at h
    · rw [unwind_cons_inr fs hr] at h
      rcases List.mem_cons.mp h with rfl | h
      · exact ⟨List.mem_cons_self _ _, c, hr⟩
      · obtain ⟨hm, c'', hr'⟩ := ih h
        exact ⟨List.mem_cons_of_mem _ hm, c'', hr'⟩

/-- A registration returns as a frame below resumes only when it called its hook at once. -/
theorem Frame.immediate_of_resume {h : Hook} {phase : Phase} {pc : HookPc} {c : Completion}
    (hr : (Frame.addShutdownHook h phase pc).resume c = .inr .ret) : pc = .immediate := by
  cases pc <;> cases c <;> simp_all [Frame.resume]

/-- The registrations that return when `top` ends over `rest`: `top` itself, or a frame of
`rest` that called its hook at once. -/
theorem Core.leave_returned {s : Core} {t : Nat} {top : Frame} {rest : List Frame}
    {c : Completion} {h : Hook} {phase : Phase} {pc : HookPc}
    (he : Event.leave (.addShutdownHook h phase pc) .ret ∈ (s.leave t top rest c).trace) :
    Event.leave (.addShutdownHook h phase pc) .ret ∈ s.trace ∨
      (top = .addShutdownHook h phase pc ∧ c = .ret) ∨
      Frame.addShutdownHook h phase .immediate ∈ rest := by
  simp only [Core.leave, List.mem_append, List.mem_filterMap] at he
  rcases he with he | ⟨⟨x, c'⟩, hx, hxe⟩
  · exact .inl he
  · have hxe' : x = .addShutdownHook h phase pc ∧ c' = .ret := by
      cases x <;> simp_all [Frame.endEvent]
    obtain ⟨rfl, rfl⟩ := hxe'
    rcases List.mem_cons.mp hx with hx | hx
    · cases hx; exact .inr (.inl ⟨rfl, rfl⟩)
    · obtain ⟨hm, c'', hr⟩ := resume_of_mem_unwind_ended hx
      exact .inr (.inr (Frame.immediate_of_resume hr ▸ hm))

/-! ### The invariant -/

/-- Every hook whose registration returned has been called, is in its list, or was dropped by
a `del` after the end of its loop. -/
structure Core.KeptOk (s : Core) : Prop where
  frames : ∀ t, ∀ f ∈ s.stack t, f.keptOk s.hooks s.trace
  registered : ∀ h phase pc, Event.leave (.addShutdownHook h phase pc) .ret ∈ s.trace →
    Called s.trace h.id phase ∨ h.id ∈ s.hooks phase ∨ DroppedLate s.trace h.id phase

section Moves

variable {s s' : Core} {t : Nat}

theorem Core.Moves.trace_prefix (hm : s.Moves t s') : s.trace <+: s'.trace :=
  let ⟨new, h, _⟩ := hm.trace_new; ⟨new, h.symm⟩

/-- The registrations that return in a step: the one that appends its hook, or ones that
called their hook at once. -/
theorem Core.Moves.returned (hm : s.Moves t s') {h : Hook} {phase : Phase} {pc : HookPc}
    (he : Event.leave (.addShutdownHook h phase pc) .ret ∈ s'.trace) :
    Event.leave (.addShutdownHook h phase pc) .ret ∈ s.trace ∨ h.id ∈ s'.hooks phase ∨
      ∃ u, Frame.addShutdownHook h phase .immediate ∈ s.stack u := by
  have hrest : ∀ {top rest}, s.stack t = top :: rest →
      Frame.addShutdownHook h phase .immediate ∈ rest →
      ∃ u, Frame.addShutdownHook h phase .immediate ∈ s.stack u :=
    fun hst hr => ⟨t, hst ▸ List.mem_cons_of_mem _ hr⟩
  cases hm with
  | @exec f rest g o hst hx =>
    obtain ⟨new, hg, hnew⟩ := hx.no_leave
    have hold : Event.leave (.addShutdownHook h phase pc) .ret ∈ g.trace →
        Event.leave (.addShutdownHook h phase pc) .ret ∈ s.trace := fun he => by
      rw [hg, List.mem_append] at he
      exact he.resolve_right fun he' => hnew _ he' _ _ rfl
    cases o with
    | done c =>
      rcases Core.leave_returned he with he | ⟨rfl, rfl⟩ | he
      · exact .inl (hold he)
      · cases hx
        exact .inr (.inl (by simp [Core.apply, Core.leave]))
      · exact .inr (.inr (hrest hst he))
    | _ => exact .inl (hold he)
  | chainLeave hst | leave hst =>
    rcases Core.leave_returned he with he | ⟨hf, -⟩ | he
    · exact .inl he
    · cases hf
    · exact .inr (.inr (hrest hst he))
  | call => cases (‹Op›) <;> simp_all [Core.callOp, Core.callShutdown, Core.setStack]
  | _ => exact .inl he

/-- A step extends the lists and the trace as `Grows` says, or is a `del`. -/
theorem Core.Moves.grows_or_del (hm : s.Moves t s') :
    Grows s.hooks s'.hooks s.trace s'.trace ∨
      ∃ call r phase rest, s.stack t = .signalShutdown call r (.del phase) :: rest ∧
        s'.hooks = Function.update s.hooks phase [] ∧
        s'.trace = s.trace ++ [.drain call phase (s.hooks phase)] ∧
        ∀ u, s'.stack u =
          if u = t then .signalShutdown call r phase.next :: rest else s.stack u := by
  have hsame : s'.hooks = s.hooks → Grows s.hooks s'.hooks s.trace s'.trace := fun hh =>
    let ⟨new, htr, _⟩ := hm.trace_new
    ⟨new, htr, fun p => ⟨[], by simp [hh], by simp⟩⟩
  have hne : ∀ {f rest}, s.stack t = f :: rest → t < s.threads.length :=
    fun h => Core.lt_of_stack_ne_nil (by simp [h])
  cases hm with
  | @exec f rest g o hst hx =>
    have hstack := Core.stack_apply (hx.threads_eq ▸ hne hst) f rest o
    have hsg := hx.stack_eq
    cases hx
    case del call r phase =>
      exact .inr ⟨call, r, phase, rest, hst, rfl, rfl, fun u => by rw [hstack, hsg]; rfl⟩
    case hookAppend h phase =>
      refine .inl ⟨_, rfl, fun p => ?_⟩
      by_cases hp : p = phase
      · subst hp
        refine ⟨[h.id], by simp [Core.apply, Core.leave], fun x hx =>
          ⟨h, .append, (List.mem_singleton.mp hx).symm, ?_⟩⟩
        exact List.mem_filterMap.mpr ⟨(_, .ret), List.mem_cons_self _ _, rfl⟩
      · exact ⟨[], by simp [Core.apply, Core.leave, Function.update_noteq hp], by simp⟩
    all_goals exact .inl (hsame rfl)
  | @call op rest hst => exact .inl (hsame (by cases op <;> rfl))
  | _ => exact .inl (hsame rfl)

theorem Core.KeptOk.grows (hk : s.KeptOk) (hm : s.Moves t s')
    (hg : Grows s.hooks s'.hooks s.trace s'.trace) : s'.KeptOk := by
  have ht := hm.trace_prefix
  refine ⟨fun u x hx => ?_, fun h phase pc he => ?_⟩
  · rcases hm.mem_stack hx with hx | ⟨y, hy, c, hr⟩ | ⟨hnew, -⟩
    · exact Frame.keptOk_grows hg (hk.frames u x hx)
    · exact Frame.keptOk_grows hg (Frame.keptOk_resume hr (hk.frames u y hy))
    · cases hnew with
      | @exec f rest g o x hst hx' hs' hxo =>
        subst hs'
        have := hx'.keptOk_new (hk.frames t _ (hst ▸ List.mem_cons_self _ _)) hxo
        cases o with
        | done => simp [Outcome.newFrames] at hxo
        | _ => exact this
      | call => cases (‹Op›) <;> simp [Core.callOp, Core.callShutdown, Frame.keptOk]
      | _ => trivial
  · rcases hm.returned he with he | he | ⟨u, hu⟩
    · rcases hk.registered h phase pc he with hc | hl | hd
      · exact .inl (hc.mono ht)
      · obtain ⟨_, _, hgrow⟩ := hg
        obtain ⟨l, hp, -⟩ := hgrow phase
        exact .inr (.inl (hp ▸ List.mem_append_left _ hl))
      · exact .inr (.inr (hd.mono ht))
    · exact .inr (.inl he)
    · exact .inl (.inr ((hk.frames u _ hu).mono ht))

theorem Core.KeptOk.del (hk : s.KeptOk) (hl : s.LockOk) (hn : s.Nesting) (hm : s.Moves t s')
    {call : Nat} {r : String} {phase : Phase} {rest : List Frame}
    (hst : s.stack t = .signalShutdown call r (.del phase) :: rest)
    (hh : s'.hooks = Function.update s.hooks phase [])
    (htr : s'.trace = s.trace ++ [.drain call phase (s.hooks phase)])
    (hstack : ∀ u, s'.stack u =
      if u = t then .signalShutdown call r phase.next :: rest else s.stack u) :
    s'.KeptOk := by
  have ht : s.trace <+: s'.trace := ⟨_, htr.symm⟩
  have hF : Frame.signalShutdown call r (.del phase) ∈ s.stack t := hst ▸ List.mem_cons_self _ _
  have hnest : NestOk (.signalShutdown call r (.del phase) :: rest) := hst ▸ hn t
  refine ⟨fun u x hx => ?_, fun h p pc he => ?_⟩
  · rw [hstack] at hx
    split at hx
    · rcases List.mem_cons.mp hx with rfl | hx
      · cases phase <;> simp [Phase.next, Frame.keptOk]
      · exact Frame.keptOk_idle ht (hnest.rest_idle rfl x hx)
          (hk.frames t x (hst ▸ List.mem_cons_of_mem _ hx))
    · rename_i hu
      have hxr : x.running = false := by
        cases hxr : x.running
        · rfl
        · exact absurd (Core.running_on_holder hl hF rfl hx hxr) hu
      exact Frame.keptOk_idle ht hxr (hk.frames u x hx)
  · rcases hm.returned he with he | he | ⟨u, hu⟩
    · rcases hk.registered h p pc he with hc | hlist | hd
      · exact .inl (hc.mono ht)
      · by_cases hp : p = phase
        · subst hp
          obtain ⟨k, -, hc, pre, mid, hpre, hreg⟩ := hk.frames t _ hF
          rw [← List.take_append_drop k (s.hooks p), List.mem_append] at hlist
          rcases hlist with hlist | hlist
          · exact .inl (.inl ⟨call, r, (hc _ hlist).mono ht⟩)
          · exact .inr (.inr ⟨call, pre, mid, [], s.hooks p, by rw [htr, hpre]; simp,
              List.mem_of_mem_drop hlist, hreg _ hlist⟩)
        · exact .inr (.inl (by rw [hh, Function.update_noteq hp]; exact hlist))
      · exact .inr (.inr (hd.mono ht))
    · exact .inr (.inl he)
    · exact .inl (.inr ((hk.frames u _ hu).mono ht))

theorem Core.Moves.keptOk (hm : s.Moves t s') (hl : s.LockOk) (hn : s.Nesting)
    (hk : s.KeptOk) : s'.KeptOk := by
  rcases hm.grows_or_del with hg | ⟨call, r, phase, rest, hst, hh, htr, hstack⟩
  · exact hk.grows hm hg
  · exact hk.del hl hn hm hst hh htr hstack

end Moves

theorem Core.keptOk_init : Core.init.KeptOk := by
  refine ⟨fun u f hf => ?_, fun h p pc he => by simp [Core.init] at he⟩
  rcases u with _ | u
  · simp only [Core.stack, Core.init, List.getD_cons_zero, List.mem_singleton] at hf
    subst hf
    trivial
  · simp [Core.stack, Core.init] at hf

theorem Core.Reachable.keptOk {s : Core} (h : s.Reachable) : s.KeptOk := by
  induction h with
  | init => exact Core.keptOk_init
  | step _ _ hr hs ih => exact (Core.moves_of_step hs).keptOk hr.lockOk hr.nesting ih

/-! ### After the loops -/

/-- `_in_shutdown` is set, and no `signal_shutdown` call is between its locked re-check and
the end of its hook loops. -/
def Core.Settled (s : Core) : Prop :=
  s.inShutdown = true ∧ ∀ t, ∀ f ∈ s.stack t, f.started = false

/-- `Core.Settled` read off the threads, so that it can be evaluated. -/
theorem Core.settled_of_all {s : Core} (hin : s.inShutdown = true)
    (h : s.threads.all (fun st => st.all fun f => !f.started) = true) : s.Settled := by
  refine ⟨hin, fun t f hf => ?_⟩
  simp only [List.all_eq_true, Bool.not_eq_true'] at h
  rw [Core.stack, List.getD_eq_getElem?_getD] at hf
  cases hg : s.threads[t]? with
  | none => simp [hg] at hf
  | some st =>
    rw [hg, Option.getD_some] at hf
    exact h st (List.getElem?_mem hg) f hf

theorem Core.mem_listed_of_mem {s : Core} {p : Phase} {h : Nat} (hh : h ∈ s.hooks p) :
    h ∈ s.listed := by
  cases p <;> simp [Core.listed, hh]

section Settled

variable {s s' g : Core} {t : Nat}

/-- A statement starts a call's loops only from a started call, or past a re-check that found
`_in_shutdown` clear. -/
theorem Core.Exec.started_new {f : Frame} {o : Outcome} (hx : s.Exec t f g o) {x : Frame}
    (hxo : x ∈ o.newFrames) (hxs : x.started = true) :
    f.started = true ∨ s.inShutdown = false := by
  cases hx <;>
    simp only [Outcome.newFrames, List.mem_cons, List.mem_singleton, List.not_mem_nil,
      or_false] at hxo <;>
    (try rcases hxo with hxo | hxo) <;> (try subst hxo) <;> (try cases ‹Phase›) <;>
    simp_all [Frame.started, Frame.pending, Frame.running, Phase.next, Core.callShutdown]

/-- A statement calls a hook only from a running loop, or the hook its registration holds. -/
theorem Core.Exec.invoked_new {f : Frame} {o : Outcome} (hx : s.Exec t f g o) :
    ∃ new, g.invoked = s.invoked ++ new ∧ ∀ h ∈ new, f.running = true ∨ f.heldHook = some h := by
  cases hx
  case invoke call r phase i h hh =>
    exact ⟨[h], by simp [Core.invoked, Event.invokedHook], by simp [Frame.running]⟩
  case hookImmediate h phase _ _ =>
    exact ⟨[h.id], by simp [Core.invoked, Event.invokedHook], by simp [Frame.heldHook]⟩
  all_goals exact ⟨[], by simp [Core.invoked, Event.invokedHook, Core.callShutdown], by simp⟩

theorem Core.Moves.invoked_new (hm : s.Moves t s') :
    ∃ new, s'.invoked = s.invoked ++ new ∧
      ∀ h ∈ new, ∃ f ∈ s.stack t, f.running = true ∨ f.heldHook = some h := by
  cases hm with
  | @exec f rest g o hst hx =>
    obtain ⟨new, hg, hnew⟩ := hx.invoked_new
    exact ⟨new, by rw [Core.invoked_apply, hg],
      fun h hh => ⟨f, hst ▸ List.mem_cons_self _ _, hnew h hh⟩⟩
  | call =>
    cases (‹Op›) <;> exact ⟨[], by
      simp [Core.callOp, Core.callShutdown, Core.invoked, Core.setStack, Event.invokedHook],
      by simp⟩
  | chainLeave _ | leave _ => exact ⟨[], by simp, by simp⟩
  | _ => exact ⟨[], by simp [Core.invoked, Core.setStack], by simp⟩

/-- In a settled state, a step keeps it settled, only appends to the lists, and calls no
listed hook. -/
theorem Core.Moves.settled (hm : s.Moves t s') (hs : s.Settled) (hi : s.HookInv) :
    s'.Settled ∧ (∀ p, s.hooks p <+: s'.hooks p) ∧
      ∃ new, s'.invoked = s.invoked ++ new ∧ ∀ h ∈ s.listed, h ∉ new := by
  obtain ⟨hin, hidle⟩ := hs
  refine ⟨⟨hm.inShutdown_mono hin, fun u x hx => ?_⟩, fun p => ?_, ?_⟩
  · rcases hm.mem_stack hx with hx | ⟨y, hy, c, hr⟩ | ⟨hnew, -⟩
    · exact hidle u x hx
    · have := Frame.resume_keeps hr
      simpa [Frame.started, this.2.1, this.2.2] using hidle u y hy
    · cases hnew with
      | @exec f rest g o x hst hx' _ hxo =>
        cases hxs : x.started
        · rfl
        · rcases hx'.started_new hxo hxs with h | h
          · simp [hidle t f (hst ▸ List.mem_cons_self _ _)] at h
          · simp [hin] at h
      | call =>
        cases (‹Op›) <;>
          simp [Core.callOp, Core.callShutdown, Frame.started, Frame.pending, Frame.running]
      | _ => simp [Frame.started, Frame.pending, Frame.running]
  · rcases hm.grows_or_del with ⟨_, _, hl⟩ | ⟨call, r, phase, rest, hst, -⟩
    · obtain ⟨l, hp, -⟩ := hl p
      exact ⟨l, hp.symm⟩
    · have := hidle t _ (hst ▸ List.mem_cons_self _ _)
      simp [Frame.started, Frame.pending, Frame.running] at this
  · obtain ⟨new, hinv, hnew⟩ := hm.invoked_new
    refine ⟨new, hinv, fun h hl hh => ?_⟩
    obtain ⟨f, hf, hfr | hfh⟩ := hnew h hh
    · have := hidle t f hf
      simp [Frame.started, hfr] at this
    · exact hi.not_held_of_listed hl (Core.mem_held hf hfh)

/-- From a settled state, a whole run keeps every listed hook in its list and calls none of
them. -/
theorem Core.Settled.run (hr : s.Reachable) (hs : s.Settled) {as : List (Nat × Act)}
    (h : s.run as = some s') :
    ∃ new, s'.invoked = s.invoked ++ new ∧ ∀ p, ∀ x ∈ s.hooks p, x ∈ s'.hooks p ∧ x ∉ new := by
  induction as generalizing s with
  | nil =>
    cases h
    exact ⟨[], by simp, fun p x hx => ⟨hx, by simp⟩⟩
  | cons ta as ih =>
    obtain ⟨s₁, h₁, h₂⟩ := Option.bind_eq_some.mp h
    obtain ⟨hs₁, hpre, new₁, hinv₁, hnot₁⟩ := (Core.moves_of_step h₁).settled hs hr.hookInv
    obtain ⟨new₂, hinv₂, hkeep⟩ := ih (.step ta.1 ta.2 hr h₁) hs₁ h₂
    refine ⟨new₁ ++ new₂, by rw [hinv₂, hinv₁, List.append_assoc], fun p x hx => ?_⟩
    obtain ⟨hx', hxn⟩ := hkeep p x ((hpre p).subset hx)
    refine ⟨hx', fun hm => ?_⟩
    rcases List.mem_append.mp hm with hm | hm
    · exact hnot₁ x (Core.mem_listed_of_mem hx) hm
    · exact hxn hm

end Settled

/-! ### Registrations -/

/-- A pre hook registers a client hook after the client list was emptied. -/
def lateClientHook : List (Nat × Act) :=
  [(0, .call (addPreshutdownHook true)), (0, .exec), (0, .exec), (0, .exec),
    (0, .call (.signalShutdown "r"))] ++ List.replicate 7 (0, .exec) ++
  [(0, .call (addClientShutdownHook true)), (0, .exec), (0, .exec), (0, .exec), (0, .ret)] ++
  List.replicate 9 (0, .exec)

/-- A previous signal handler, run while `signal_shutdown` is at `del _client_shutdown_hooks[:]`,
registers a client hook. -/
def handlerClientHook : List (Nat × Act) :=
  [(0, .call (.signalShutdown "r"))] ++ List.replicate 5 (0, .exec) ++
  [(0, .signal 2), (0, .exec), (0, .exec), (0, .chain true),
    (0, .call (addClientShutdownHook true)), (0, .exec), (0, .exec), (0, .exec), (0, .ret)] ++
  List.replicate 10 (0, .exec)

/-- The state after `lateClientHook`: the call has ended and hook 1 waits in the client list. -/
def lateClientState : Core := (Core.init.run lateClientHook).getD Core.init

/-- The state after `handlerClientHook`: the call has ended and every list is empty. -/
def handlerClientState : Core := (Core.init.run handlerClientHook).getD Core.init

end RospyCore
