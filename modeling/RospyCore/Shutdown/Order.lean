import Mathlib
import RospyCore.Shutdown.Kept

/-!
# The order of a shutdown

A `signal_shutdown(reason)` call that sets `_in_shutdown` while it is still `False` does the
shutdown: it calls the client hooks in list order with no argument and empties the client
list, calls the pre hooks with `reason` and empties their list, sets `_shutdown_flag`, calls
the normal hooks with `reason` and empties their list.  The client and pre hooks it calls see
`is_shutdown_requested()` true and `is_shutdown()` false, the normal hooks see `is_shutdown()`
true (`shutdown_order`).

Two facts carry this.  A call runs in one frame at a time (`Core.CallsOk`), so its events are
written by that frame alone.  And the frame of such a call records how far it has got: the
hooks before its index have been called, in list order, after the work of the earlier phases
(`ShutdownPc.orderOk`).
-/

namespace RospyCore

/-! ### One frame a call -/

/-- The `signal_shutdown` calls the frames of a stack run. -/
def callsOf (st : List Frame) : List Nat := st.filterMap Frame.callId

/-- The calls all frames run. -/
def Core.calls (s : Core) : List Nat := s.threads.flatMap callsOf

/-- Each call runs in one frame, which keeps the reason the call started with; once a call has
set `_in_shutdown`, it is set and the call is past its first statements. -/
structure Core.CallsOk (s : Core) : Prop where
  nodup : s.calls.Nodup
  reason : ∀ u c r pc, Frame.signalShutdown c r pc ∈ s.stack u → Event.start c r ∈ s.trace
  set_lt : ∀ c w, Event.setInShutdown c w ∈ s.trace → c < s.nextCall
  set_in : ∀ c w, Event.setInShutdown c w ∈ s.trace → s.inShutdown = true
  set_past : ∀ c w, Event.setInShutdown c w ∈ s.trace → ∀ u r pc,
    Frame.signalShutdown c r pc ∈ s.stack u → (Frame.signalShutdown c r pc).afterRequest = true

@[simp] theorem callsOf_nil : callsOf [] = [] := rfl

theorem callsOf_cons (f : Frame) (st : List Frame) :
    callsOf (f :: st) = f.callId.toList ++ callsOf st := by
  cases h : f.callId <;> simp [callsOf, List.filterMap_cons, h]

theorem count_callsOf_unwind (rest : List Frame) (c : Completion) (a : Nat) :
    (callsOf (unwind rest c).1).count a ≤ (callsOf rest).count a := by
  have := congrArg (List.count a)
    (unwind_filterMap Frame.callId (fun _ _ _ h => (Frame.resume_call h).1) rest c)
  rw [List.count_append] at this
  unfold callsOf
  omega

theorem Core.mem_calls {s : Core} {u : Nat} {x : Frame} {k : Nat} (hx : x ∈ s.stack u)
    (hk : x.callId = some k) : k ∈ s.calls := by
  have hu := Core.lt_of_stack_ne_nil (List.ne_nil_of_mem hx)
  refine List.mem_flatMap.mpr ⟨s.stack u, ?_, List.mem_filterMap.mpr ⟨x, hx, hk⟩⟩
  simp only [Core.stack, List.getD_eq_getElem?_getD, List.getElem?_eq_getElem hu,
    Option.getD_some]
  exact List.getElem_mem hu

theorem Core.lt_of_mem_calls {s : Core} (hn : s.Numbered) {k : Nat} (hk : k ∈ s.calls) :
    k < s.nextCall := by
  obtain ⟨st, hst, hk⟩ := List.mem_flatMap.mp hk
  obtain ⟨x, hx, hxk⟩ := List.mem_filterMap.mp hk
  obtain ⟨u, hu, rfl⟩ := List.getElem_of_mem hst
  refine hn.frames u x ?_ k hxk
  simpa [Core.stack, List.getD_eq_getElem?_getD, List.getElem?_eq_getElem hu] using hx

theorem Core.count_calls_setStack {s : Core} {t : Nat} (ht : t < s.threads.length)
    (st : List Frame) (a : Nat) :
    (s.setStack t st).calls.count a + (callsOf (s.stack t)).count a =
      s.calls.count a + (callsOf st).count a :=
  count_flatMap_set callsOf ht st a

/-- With distinct calls, the frame of a call is the only one. -/
theorem Core.calls_unique {s : Core} (hnd : s.calls.Nodup) {t : Nat} {f : Frame}
    {rest : List Frame} (hst : s.stack t = f :: rest) {c : Nat} (hf : f.callId = some c) :
    (∀ y ∈ rest, y.callId ≠ some c) ∧
      ∀ u, u ≠ t → ∀ y ∈ s.stack u, y.callId ≠ some c := by
  have ht : t < s.threads.length := Core.lt_of_stack_ne_nil (by simp [hst])
  have hone := List.nodup_iff_count_le_one.mp hnd c
  have hsplit := Core.count_calls_setStack ht [] c
  rw [hst, callsOf_cons, hf] at hsplit
  simp only [Option.toList_some, List.singleton_append, List.count_cons_self, callsOf,
    List.filterMap_nil, List.count_nil, add_zero] at hsplit
  refine ⟨fun y hy hyc => ?_, fun u hu y hy hyc => ?_⟩
  · have := List.count_pos_iff.mpr (List.mem_filterMap.mpr ⟨y, hy, hyc⟩)
    unfold callsOf at this
    omega
  · have hy' : y ∈ (s.setStack t []).stack u := by
      rw [Core.stack_setStack ht, if_neg hu]; exact hy
    have := List.count_pos_iff.mpr (Core.mem_calls hy' hyc)
    omega

/-! ### A step keeps one frame a call -/

@[simp] theorem Core.apply_hooks (s : Core) (t : Nat) (top : Frame) (rest : List Frame)
    (o : Outcome) : (s.apply t top rest o).hooks = s.hooks := by
  cases o <;> rfl

theorem Core.apply_threads (s : Core) (t : Nat) (top : Frame) (rest : List Frame) (o : Outcome) :
    (s.apply t top rest o).threads = s.threads.set t (o.stackAfter rest) := by
  cases o <;> rfl

theorem count_callsOf_stackAfter (o : Outcome) (rest : List Frame) (a : Nat) :
    (callsOf (o.stackAfter rest)).count a ≤
      (callsOf o.newFrames).count a + (callsOf rest).count a := by
  cases o with
  | done c => exact (count_callsOf_unwind rest c a).trans (Nat.le_add_left _ _)
  | goto f => simp [Outcome.stackAfter, Outcome.newFrames, callsOf_cons]
  | call f child =>
    simp only [Outcome.stackAfter, Outcome.newFrames, callsOf_cons, callsOf_nil,
      List.append_nil, List.count_append]
    omega

/-- A statement's new frames run its frame's call, or a new one. -/
theorem Core.Exec.calls_new {s g : Core} {t : Nat} {f : Frame} {o : Outcome}
    (hx : s.Exec t f g o) (a : Nat) :
    (callsOf o.newFrames).count a ≤
      f.callId.toList.count a + if a = s.nextCall then 1 else 0 := by
  cases hx <;> simp [Outcome.newFrames, callsOf_cons, Frame.callId, Core.callShutdown]
  case signalStart => split_ifs with h <;> simp [List.count_singleton, h, eq_comm]

section Moves

variable {s s' : Core} {t : Nat}

/-- A step adds at most the new call to the calls the frames run. -/
theorem Core.Moves.count_calls (hm : s.Moves t s') (a : Nat) :
    s'.calls.count a ≤ s.calls.count a + if a = s.nextCall then 1 else 0 := by
  have hne : ∀ {f rest}, s.stack t = f :: rest → t < s.threads.length :=
    fun h => Core.lt_of_stack_ne_nil (by simp [h])
  have hset : ∀ {st}, t < s.threads.length → s'.threads = s.threads.set t st →
      (callsOf st).count a ≤ (callsOf (s.stack t)).count a + (if a = s.nextCall then 1 else 0) →
      s'.calls.count a ≤ s.calls.count a + if a = s.nextCall then 1 else 0 :=
    fun {st} ht hth hle => by
    have := Core.count_calls_setStack ht st a
    have hcalls : s'.calls = (s.setStack t st).calls := by
      simp only [Core.calls, Core.setStack, hth]
    rw [hcalls]
    omega
  cases hm with
  | @exec f rest g o hst hx =>
    refine hset (hne hst) (by rw [Core.apply_threads, hx.threads_eq]) ?_
    have := count_callsOf_stackAfter o rest a
    have := hx.calls_new a
    rw [hst, callsOf_cons, List.count_append]
    omega
  | chainCall hst => exact hset (hne hst) rfl (by simp [hst, callsOf_cons, Frame.callId])
  | @chainLeave sig rest hst =>
    refine hset (hne hst) rfl ?_
    simpa [hst, callsOf_cons, Frame.callId] using
      (count_callsOf_unwind rest .ret a).trans (Nat.le_add_right _ _)
  | @leave c rest hst =>
    refine hset (hne hst) rfl ?_
    simpa [hst, callsOf_cons, Frame.callId] using
      (count_callsOf_unwind rest c a).trans (Nat.le_add_right _ _)
  | @call op rest hst =>
    refine hset (hne hst)
      (show _ = s.threads.set t ((s.callOp op).2 :: .body :: rest) by cases op <;> rfl) ?_
    cases op with
    | signalShutdown r =>
      simp [hst, callsOf_cons, Core.callOp, Core.callShutdown, Frame.callId, List.count_cons]
      split_ifs <;> omega
    | _ => simp [hst, callsOf_cons, Core.callOp, Frame.callId]
  | signal _ hne' =>
    exact hset (Core.lt_of_stack_ne_nil hne') rfl (by simp [callsOf_cons, Frame.callId])
  | spawn => simp [Core.calls, callsOf, Frame.callId]
  | exit _ => exact Nat.le_add_right _ _

theorem Core.Moves.calls_nodup (hm : s.Moves t s') (hn : s.Numbered) (hnd : s.calls.Nodup) :
    s'.calls.Nodup := by
  refine List.nodup_iff_count_le_one.mpr fun a => ?_
  have h1 := hm.count_calls a
  have h2 := List.nodup_iff_count_le_one.mp hnd a
  split_ifs at h1 with ha
  · have : s.calls.count a = 0 :=
      List.count_eq_zero.mpr fun hk => (Core.lt_of_mem_calls hn hk).ne ha
    omega
  · omega

end Moves

/-! ### Where a call's frame comes from -/

theorem Frame.endEvent_eq {f : Frame} {c : Completion} {e : Event} (h : f.endEvent c = some e) :
    e = .leave f c := by
  cases f <;> simp only [Frame.endEvent, Option.some.injEq, reduceCtorEq] at h <;> exact h.symm

/-- The events a step of the top frame adds after its own are ends of frames. -/
theorem Core.apply_events (g : Core) (t : Nat) (f : Frame) (rest : List Frame) (o : Outcome) :
    ∃ new, (g.apply t f rest o).trace = g.trace ++ new ∧
      ∀ e ∈ new, ∃ x c, e = .leave x c := by
  obtain ⟨new, h, hnew⟩ := g.trace_apply t f rest o
  refine ⟨new, h, fun e he => ?_⟩
  obtain ⟨-, x, -, c, hxe⟩ := hnew e he
  exact ⟨x, c, Frame.endEvent_eq hxe⟩

theorem Core.leave_events (s : Core) (t : Nat) (top : Frame) (rest : List Frame) (c : Completion) :
    ∃ new, (s.leave t top rest c).trace = s.trace ++ new ∧
      ∀ e ∈ new, ∃ x c, e = .leave x c :=
  s.apply_events t top rest (.done c)

/-- A `signal_shutdown` frame resumes at the same statement, or after the hook it called. -/
theorem Frame.resume_shutdown {c : Nat} {r : String} {pc : ShutdownPc} {cc : Completion}
    {g' : Frame} (h : (Frame.signalShutdown c r pc).resume cc = .inl g') :
    g' = .signalShutdown c r pc ∨
      ∃ p i, pc = .hook p i ∧ g' = .signalShutdown c r (.loop p (i + 1)) := by
  cases pc <;> cases cc <;> (try rename_i e; cases e) <;>
    simp only [Frame.resume, Sum.inl.injEq, reduceCtorEq] at h <;>
    (try split at h) <;> (try cases h) <;> simp

/-- A frame of call `c` with reason `r`, past its checks if a frame at `pc` is. -/
def Core.ShutdownOrigin (s : Core) (c : Nat) (r : String) (pc : ShutdownPc) : Prop :=
  ∃ v pc', Frame.signalShutdown c r pc' ∈ s.stack v ∧
    ((Frame.signalShutdown c r pc').afterRequest = true →
      (Frame.signalShutdown c r pc).afterRequest = true)

theorem Core.ShutdownOrigin.resumed {s : Core} {v c : Nat} {r : String} {pc : ShutdownPc}
    {y : Frame} {cc : Completion} (hy : y ∈ s.stack v)
    (hr : y.resume cc = .inl (.signalShutdown c r pc)) : s.ShutdownOrigin c r pc := by
  obtain ⟨hk, -⟩ := Frame.resume_call hr
  cases y with
  | signalShutdown c' r' pc' =>
    rcases Frame.resume_shutdown hr with h | ⟨p, i, rfl, h⟩ <;> cases h
    · exact ⟨v, pc, hy, id⟩
    · exact ⟨v, _, hy, fun _ => rfl⟩
  | _ => simp [Frame.callId] at hk

theorem Core.ShutdownOrigin.unwind {s : Core} {t c : Nat} {r : String} {pc : ShutdownPc}
    {f : Frame} {rest : List Frame} {cc : Completion} (hst : s.stack t = f :: rest)
    (hx : .signalShutdown c r pc ∈ (RospyCore.unwind rest cc).1) : s.ShutdownOrigin c r pc := by
  rcases mem_unwind hx with hx | ⟨y, hy, c', hr⟩
  · exact ⟨t, pc, hst ▸ List.mem_cons_of_mem _ hx, id⟩
  · exact .resumed (hst ▸ List.mem_cons_of_mem _ hy) hr

/-- A statement's new `signal_shutdown` frame continues its own call, as far past its checks,
or starts a new call. -/
theorem Core.Exec.shutdown_new {s g : Core} {t : Nat} {f : Frame} {o : Outcome}
    (hx : s.Exec t f g o) {c : Nat} {r : String} {pc : ShutdownPc}
    (hxo : .signalShutdown c r pc ∈ o.newFrames) :
    (∃ pc', f = .signalShutdown c r pc' ∧ ((Frame.signalShutdown c r pc').afterRequest = true →
        (Frame.signalShutdown c r pc).afterRequest = true)) ∨
      (c = s.nextCall ∧ pc = .start ∧ Event.start c r ∈ g.trace) := by
  cases hx <;>
    simp only [Outcome.newFrames, List.mem_cons, List.mem_singleton, List.not_mem_nil,
      or_false, Frame.signalShutdown.injEq, reduceCtorEq, false_or] at hxo <;>
    (try obtain ⟨rfl, rfl, rfl⟩ := hxo)
  case signalStart => simp [Core.callShutdown]
  case del phase => exact .inl ⟨_, rfl, fun _ => by cases phase <;> rfl⟩
  all_goals exact .inl ⟨_, rfl, fun h => by first | rfl | exact h⟩

/-- A statement's `_in_shutdown = True` event is its frame's, at that statement. -/
theorem Core.Exec.setIn_new {s g : Core} {t : Nat} {f : Frame} {o : Outcome}
    (hx : s.Exec t f g o) :
    ∃ new, g.trace = s.trace ++ new ∧ ∀ c w, Event.setInShutdown c w ∈ new →
      ∃ r, f = .signalShutdown c r .setInShutdown ∧ w = s.inShutdown := by
  cases hx
  case setInShutdown call r => exact ⟨_, rfl, by simp⟩
  all_goals first
    | exact ⟨[], (List.append_nil _).symm, by simp⟩
    | exact ⟨_, rfl, by simp [Core.callShutdown]⟩

section Moves

variable {s s' : Core} {t : Nat}

/-- A step that writes `_in_shutdown = True` for call `c` runs that statement of `c`'s frame,
on top of its stack. -/
theorem Core.Moves.setIn_new (hm : s.Moves t s') {c : Nat} {w : Bool}
    (he : Event.setInShutdown c w ∈ s'.trace) (hold : Event.setInShutdown c w ∉ s.trace) :
    ∃ r rest, s.stack t = .signalShutdown c r .setInShutdown :: rest ∧ w = s.inShutdown ∧
      s' = ({ s with inShutdown := true, trace := s.trace ++ [.setInShutdown c s.inShutdown] } :
        Core).setStack t (.signalShutdown c r (.loop .client 0) :: rest) := by
  have hleave : ∀ {tr new : List Event}, (∀ e ∈ new, ∃ x c, e = .leave x c) →
      Event.setInShutdown c w ∈ tr ++ new → Event.setInShutdown c w ∈ tr := fun hnew he => by
    rcases List.mem_append.mp he with he | he
    · exact he
    · obtain ⟨x, c', h⟩ := hnew _ he
      cases h
  cases hm with
  | @exec f rest g o hst hx =>
    obtain ⟨new', htr', hnew'⟩ := g.apply_events t f rest o
    obtain ⟨new, htr, hnew⟩ := hx.setIn_new
    have he' := hleave hnew' (htr' ▸ he)
    rw [htr] at he'
    rcases List.mem_append.mp he' with he' | he'
    · exact absurd he' hold
    · obtain ⟨r, rfl, rfl⟩ := hnew c w he'
      cases hx
      exact ⟨r, rest, hst, rfl, rfl⟩
  | chainLeave hst | leave hst =>
    obtain ⟨new, htr, hnew⟩ := s.leave_events t _ _ _
    exact absurd (hleave hnew (htr ▸ he)) hold
  | @call op rest hst =>
    cases op with
    | signalShutdown r => simp [Core.callOp, Core.callShutdown, Core.setStack, hold] at he
    | _ => exact absurd he hold
  | _ => exact absurd he hold

/-- Every frame of a call after a step comes from a frame of that call with the same reason,
or from the start of a new call. -/
theorem Core.Moves.shutdown_origin (hm : s.Moves t s') {u c : Nat} {r : String}
    {pc : ShutdownPc} (hx : .signalShutdown c r pc ∈ s'.stack u) :
    s.ShutdownOrigin c r pc ∨
      (c = s.nextCall ∧ pc = .start ∧ Event.start c r ∈ s'.trace) := by
  have hne : ∀ {f rest}, s.stack t = f :: rest → t < s.threads.length :=
    fun h => Core.lt_of_stack_ne_nil (by simp [h])
  have hold : ∀ {v}, .signalShutdown c r pc ∈ s.stack v → s.ShutdownOrigin c r pc ∨
      (c = s.nextCall ∧ pc = .start ∧ Event.start c r ∈ s'.trace) :=
    fun hx => .inl ⟨_, pc, hx, id⟩
  cases hm with
  | @exec f rest g o hst hx' =>
    rw [Core.stack_apply (hx'.threads_eq ▸ hne hst), hx'.stack_eq] at hx
    split at hx
    · rcases Outcome.mem_stackAfter hx with hxo | hx | ⟨y, hy, cc, hr⟩
      · rcases hx'.shutdown_new hxo with ⟨pc', rfl, h⟩ | ⟨h1, h2, h3⟩
        · exact .inl ⟨t, pc', hst ▸ List.mem_cons_self _ _, h⟩
        · obtain ⟨new, htr, -⟩ := g.apply_events t f rest o
          exact .inr ⟨h1, h2, htr ▸ List.mem_append_left _ h3⟩
      · exact hold (hst ▸ List.mem_cons_of_mem _ hx)
      · exact .inl (.resumed (hst ▸ List.mem_cons_of_mem _ hy) hr)
    · exact hold hx
  | chainCall hst =>
    rcases Core.mem_stack_setStack rfl (hne hst) hx with ⟨-, hx⟩ | hx
    · simp only [List.mem_cons, reduceCtorEq, false_or] at hx
      exact hold (hst ▸ List.mem_cons_of_mem _ hx)
    · exact hold hx
  | chainLeave hst | leave hst =>
    rcases Core.mem_stack_setStack rfl (hne hst) hx with ⟨-, hx⟩ | hx
    · exact .inl (.unwind hst hx)
    · exact hold hx
  | @call op rest hst =>
    rcases Core.mem_stack_setStack (by cases op <;> rfl) (hne hst) hx with ⟨-, hx⟩ | hx
    · simp only [List.mem_cons, reduceCtorEq, false_or] at hx
      rcases hx with hx | hx
      · cases op with
        | signalShutdown r' =>
          simp only [Core.callOp, Core.callShutdown, Frame.signalShutdown.injEq] at hx
          obtain ⟨rfl, rfl, rfl⟩ := hx
          exact .inr ⟨rfl, rfl, by simp [Core.callOp, Core.callShutdown, Core.setStack]⟩
        | _ => simp [Core.callOp] at hx
      · exact hold (hst ▸ List.mem_cons_of_mem _ hx)
    · exact hold hx
  | signal _ hne' =>
    rcases Core.mem_stack_setStack rfl (Core.lt_of_stack_ne_nil hne') hx with ⟨-, hx⟩ | hx
    · simp only [List.mem_cons, reduceCtorEq, false_or] at hx
      exact hold hx
    · exact hold hx
  | spawn =>
    rw [Core.stack_spawn] at hx
    split at hx
    · simp at hx
    · exact hold hx
  | exit _ => exact hold hx

/-- Right after call `c` sets `_in_shutdown`, its one frame is at its client loop. -/
theorem Core.CallsOk.setIn_frame {g : Core} (hc : s.CallsOk) {c : Nat} {r' : String}
    {rest : List Frame} (hst : s.stack t = .signalShutdown c r' .setInShutdown :: rest)
    (hg : g.threads = s.threads) {u : Nat} {x : Frame}
    (hx : x ∈ (g.setStack t (.signalShutdown c r' (.loop .client 0) :: rest)).stack u)
    (hxc : x.callId = some c) : x = .signalShutdown c r' (.loop .client 0) := by
  have huniq := Core.calls_unique hc.nodup hst rfl
  have ht : t < s.threads.length := Core.lt_of_stack_ne_nil (by simp [hst])
  rw [Core.stack_setStack (hg ▸ ht)] at hx
  split at hx
  · rcases List.mem_cons.mp hx with h | hx
    · exact h
    · exact absurd hxc (huniq.1 _ hx)
  · exact absurd hxc (huniq.2 u ‹_› _ (by simpa [Core.stack, hg] using hx))

/-- A step keeps one frame a call, each frame's reason, and what `_in_shutdown = True` events
say. -/
theorem Core.Moves.callsOk (hm : s.Moves t s') (hn : s.Numbered) (hc : s.CallsOk) :
    s'.CallsOk := by
  have hsub : ∀ {e}, e ∈ s.trace → e ∈ s'.trace := fun he => hm.trace_prefix.subset he
  refine ⟨hm.calls_nodup hn hc.nodup, fun u c r pc hx => ?_, fun c w he => ?_, fun c w he => ?_,
    fun c w he u r pc hx => ?_⟩
  · rcases hm.shutdown_origin hx with ⟨v, pc', hy, -⟩ | ⟨-, -, h⟩
    · exact hsub (hc.reason v c r pc' hy)
    · exact h
  · by_cases hold : Event.setInShutdown c w ∈ s.trace
    · exact (hc.set_lt c w hold).trans_le hm.nextCall_le
    · obtain ⟨r, rest, hst, -, rfl⟩ := hm.setIn_new he hold
      exact hn.frames t _ (hst ▸ List.mem_cons_self _ _) c rfl
  · by_cases hold : Event.setInShutdown c w ∈ s.trace
    · exact hm.inShutdown_mono (hc.set_in c w hold)
    · obtain ⟨r, rest, hst, -, rfl⟩ := hm.setIn_new he hold
      rfl
  · by_cases hold : Event.setInShutdown c w ∈ s.trace
    · rcases hm.shutdown_origin hx with ⟨v, pc', hy, h⟩ | ⟨rfl, -, -⟩
      · exact h (hc.set_past c w hold v r pc' hy)
      · exact absurd (hc.set_lt _ w hold) (lt_irrefl _)
    · obtain ⟨r', rest, hst, -, rfl⟩ := hm.setIn_new he hold
      cases hc.setIn_frame hst rfl hx rfl
      rfl

end Moves

theorem Core.Reachable.callsOk {s : Core} (h : s.Reachable) : s.CallsOk := by
  induction h with
  | init =>
    refine ⟨by simp [Core.calls, Core.init, callsOf, Frame.callId], fun u c r pc hx => ?_,
      by simp [Core.init], by simp [Core.init], by simp [Core.init]⟩
    rcases u with _ | u <;> simp [Core.stack, Core.init] at hx
  | step _ _ hr hs ih => exact (Core.moves_of_step hs).callsOk hr.numbered ih

/-! ### The events of a call -/

/-- An event of call `call`'s hook loops: a hook it called, a list it emptied, or
`_shutdown_flag = True`. -/
def Event.ofCall (call : Nat) : Event → Bool
  | .invoke _ _ _ (some k) _ _ => k == call
  | .drain k _ _ => k == call
  | .setFlag k => k == call
  | _ => false

/-- The events of call `call`, in order. -/
def callLog (call : Nat) (trace : List Event) : List Event := trace.filter (Event.ofCall call)

/-- Call `call` calls `hooks` of one list in order: client hooks with no argument, the others
with the reason, each seeing `is_shutdown_requested()` true and `is_shutdown()` true only in the
normal list. -/
def phaseCalls (call : Nat) (reason : String) (phase : Phase) (hooks : List Nat) :
    List Event :=
  hooks.map fun h => .invoke h phase (phase.arg reason) (some call) true (phase == .normal)

/-- One hook loop: call `call` calls `called`, then empties the list, which holds `drained`. -/
def phaseLog (call : Nat) (reason : String) (phase : Phase) (called drained : List Nat) :
    List Event :=
  phaseCalls call reason phase called ++ [.drain call phase drained]

/-- What `signal_shutdown` does once it has set `_in_shutdown`: the client loop, the pre loop,
`_shutdown_flag = True`, the normal loop. -/
def shutdownOrder (call : Nat) (reason : String) (C Cd P Pd N Nd : List Nat) : List Event :=
  phaseLog call reason .client C Cd ++ phaseLog call reason .pre P Pd ++
    .setFlag call :: phaseLog call reason .normal N Nd

/-- `log` is the whole order, each loop over a prefix of the list it emptied. -/
def Finished (call : Nat) (reason : String) (log : List Event) : Prop :=
  ∃ C Cd P Pd N Nd, C <+: Cd ∧ P <+: Pd ∧ N <+: Nd ∧ log = shutdownOrder call reason C Cd P Pd N Nd

/-- The events of call `call` before its loop over `phase`: the earlier loops, and
`_shutdown_flag = True` before the normal one. -/
def Prior (call : Nat) (reason : String) : Phase → List Event → Prop
  | .client, done => done = []
  | .pre, done => ∃ C Cd, C <+: Cd ∧ done = phaseLog call reason .client C Cd
  | .normal, done => ∃ C Cd P Pd, C <+: Cd ∧ P <+: Pd ∧
      done = phaseLog call reason .client C Cd ++ phaseLog call reason .pre P Pd ++ [.setFlag call]

/-- `signal_shutdown` past its hook loops. -/
def ShutdownPc.pastLoops : ShutdownPc → Bool
  | .snapshot | .join _ _ | .delThreads | .sleep => true
  | _ => false

/-- What a frame of the call that set `_in_shutdown` knows of its events: in a loop, the earlier
loops and the hooks of its list before its index, with `_shutdown_flag` set exactly in the
normal loop; past the loops, the whole order. -/
def Frame.orderOk (hooks : Phase → List Nat) (flag : Bool) (trace : List Event) : Frame → Prop
  | .signalShutdown call r (.loop phase i) =>
    flag = (phase == .normal) ∧ i ≤ (hooks phase).length ∧ ∃ done, Prior call r phase done ∧
      callLog call trace = done ++ phaseCalls call r phase ((hooks phase).take i)
  | .signalShutdown call r (.hook phase i) =>
    flag = (phase == .normal) ∧ i < (hooks phase).length ∧ ∃ done, Prior call r phase done ∧
      callLog call trace = done ++ phaseCalls call r phase ((hooks phase).take (i + 1))
  | .signalShutdown call r (.del phase) =>
    flag = (phase == .normal) ∧ ∃ done, Prior call r phase done ∧
      ∃ C, C <+: hooks phase ∧ callLog call trace = done ++ phaseCalls call r phase C
  | .signalShutdown call r .setFlag =>
    flag = false ∧ Prior call r .normal (callLog call trace ++ [.setFlag call])
  | .signalShutdown call r .snapshot | .signalShutdown call r (.join _ _)
  | .signalShutdown call r .delThreads | .signalShutdown call r .sleep =>
    Finished call r (callLog call trace)
  | _ => True

/-- The call that set `_in_shutdown` while it was `False` is the only one; before it, no call
has events; its frames know their events; its events so far begin the whole order. -/
structure Core.OrderOk (s : Core) : Prop where
  quiet : s.inShutdown = false → ∀ c, callLog c s.trace = []
  owner : ∀ c c', Event.setInShutdown c false ∈ s.trace →
    Event.setInShutdown c' false ∈ s.trace → c = c'
  frames : ∀ c, Event.setInShutdown c false ∈ s.trace → ∀ u, ∀ x ∈ s.stack u,
    x.callId = some c → x.orderOk s.hooks s.shutdownFlag s.trace
  ended : ∀ c, Event.setInShutdown c false ∈ s.trace → ∃ r, Event.start c r ∈ s.trace ∧
    ∃ full, Finished c r full ∧ callLog c s.trace <+: full

theorem callLog_append (c : Nat) (l l' : List Event) :
    callLog c (l ++ l') = callLog c l ++ callLog c l' :=
  List.filter_append _ _

/-- Ends of frames are no call's events. -/
theorem callLog_leaves {c : Nat} {new : List Event} (h : ∀ e ∈ new, ∃ x cc, e = .leave x cc) :
    callLog c new = [] :=
  List.filter_eq_nil_iff.mpr fun e he => by
    obtain ⟨x, cc, rfl⟩ := h e he
    simp [Event.ofCall]

/-- Appending to the lists keeps a loop's visited prefix. -/
theorem take_eq_of_prefix {l l' : List Nat} (h : l <+: l') {i : Nat} (hi : i ≤ l.length) :
    l'.take i = l.take i := by
  obtain ⟨m, rfl⟩ := h
  exact List.take_append_of_le_length hi

theorem Prior.prefix {call : Nat} {r : String} {p : Phase} {done : List Event}
    (hp : Prior call r p done) (L : List Nat) :
    ∃ full, Finished call r full ∧ done ++ phaseCalls call r p L <+: full := by
  have hpre := List.prefix_refl L
  cases p
  case client =>
    cases hp
    exact ⟨_, ⟨L, L, [], [], [], [], hpre, List.prefix_refl _, List.prefix_refl _, rfl⟩,
      by simp [shutdownOrder, phaseLog]⟩
  case pre =>
    obtain ⟨C, Cd, hC, rfl⟩ := hp
    exact ⟨_, ⟨C, Cd, L, L, [], [], hC, hpre, List.prefix_refl _, rfl⟩,
      by simp [shutdownOrder, phaseLog]⟩
  case normal =>
    obtain ⟨C, Cd, P, Pd, hC, hP, rfl⟩ := hp
    exact ⟨_, ⟨C, Cd, P, Pd, L, L, hC, hP, hpre, rfl⟩, by simp [shutdownOrder, phaseLog]⟩

/-- A frame of the call past its checks: its events so far begin the whole order. -/
theorem Frame.orderOk_prefix {call : Nat} {r : String} {pc : ShutdownPc}
    {hooks : Phase → List Nat} {flag : Bool} {trace : List Event}
    (h : (Frame.signalShutdown call r pc).orderOk hooks flag trace)
    (ha : (Frame.signalShutdown call r pc).afterRequest = true) :
    ∃ full, Finished call r full ∧ callLog call trace <+: full := by
  cases pc
  case loop p i =>
    obtain ⟨-, -, done, hp, hlog⟩ := h
    exact hlog ▸ hp.prefix _
  case hook p i =>
    obtain ⟨-, -, done, hp, hlog⟩ := h
    exact hlog ▸ hp.prefix _
  case del p =>
    obtain ⟨-, done, hp, C, -, hlog⟩ := h
    exact hlog ▸ hp.prefix _
  case setFlag =>
    obtain ⟨-, C, Cd, P, Pd, hC, hP, hlog⟩ := h
    refine ⟨_, ⟨C, Cd, P, Pd, [], [], hC, hP, List.prefix_refl _, rfl⟩, ?_⟩
    rw [List.append_cancel_right hlog]
    simp [shutdownOrder]
  case snapshot | join | delThreads | sleep => exact ⟨_, h, List.prefix_refl _⟩
  all_goals simp [Frame.afterRequest] at ha

theorem Frame.orderOk_pastLoops {call : Nat} {r : String} {pc : ShutdownPc}
    {hooks : Phase → List Nat} {flag : Bool} {trace : List Event}
    (h : (Frame.signalShutdown call r pc).orderOk hooks flag trace) (hp : pc.pastLoops = true) :
    Finished call r (callLog call trace) := by
  cases pc <;> first | exact h | simp [ShutdownPc.pastLoops] at hp

/-- What a frame knows survives a step that leaves its call's events alone and, while the
frame runs, leaves the flag and only appends to the lists. -/
theorem Frame.orderOk_transport {hooks hooks' : Phase → List Nat} {flag flag' : Bool}
    {trace trace' : List Event} {f : Frame}
    (hlog : ∀ k, f.callId = some k → callLog k trace' = callLog k trace)
    (hrun : f.running = true → flag' = flag ∧ ∀ p, hooks p <+: hooks' p)
    (hf : f.orderOk hooks flag trace) : f.orderOk hooks' flag' trace' := by
  cases f with
  | signalShutdown call r pc =>
    have hl := hlog call rfl
    cases pc
    case loop phase i =>
      obtain ⟨hfl, hh⟩ := hrun rfl
      obtain ⟨hflag, hi, done, hp, hlg⟩ := hf
      exact ⟨hfl ▸ hflag, hi.trans (hh phase).length_le, done, hp,
        by rw [hl, hlg, take_eq_of_prefix (hh phase) hi]⟩
    case hook phase i =>
      obtain ⟨hfl, hh⟩ := hrun rfl
      obtain ⟨hflag, hi, done, hp, hlg⟩ := hf
      exact ⟨hfl ▸ hflag, hi.trans_le (hh phase).length_le, done, hp,
        by rw [hl, hlg, take_eq_of_prefix (hh phase) hi]⟩
    case del phase =>
      obtain ⟨hfl, hh⟩ := hrun rfl
      obtain ⟨hflag, done, hp, C, hC, hlg⟩ := hf
      exact ⟨hfl ▸ hflag, done, hp, C, hC.trans (hh phase), by rw [hl, hlg]⟩
    case setFlag =>
      exact ⟨(hrun rfl).1 ▸ hf.1, hl ▸ hf.2⟩
    case snapshot | join | delThreads | sleep =>
      show Finished _ _ _
      exact hl ▸ hf
    all_goals trivial
  | _ => trivial

theorem Frame.orderOk_resume {g g' : Frame} {cc : Completion} (h : g.resume cc = .inl g')
    {hooks : Phase → List Nat} {flag : Bool} {trace : List Event}
    (hg : g.orderOk hooks flag trace) : g'.orderOk hooks flag trace := by
  cases g with
  | signalShutdown call r pc =>
    rcases Frame.resume_shutdown h with rfl | ⟨p, i, rfl, rfl⟩
    · exact hg
    · exact ⟨hg.1, hg.2.1, hg.2.2⟩
  | _ =>
    have := (Frame.resume_inl h).1
    cases g' <;> simp_all [Frame.kind, Frame.orderOk]

/-! ### What a statement does to the order -/

section Exec

variable {s g : Core} {t : Nat} {f : Frame} {o : Outcome}

/-- Only a running frame of a call writes that call's events. -/
theorem Core.Exec.callLog_eq (hx : s.Exec t f g o) {c : Nat}
    (hf : f.callId ≠ some c ∨ f.running = false) : callLog c g.trace = callLog c s.trace := by
  cases hx <;> simp_all [callLog, Event.ofCall, Frame.callId, Frame.running, Core.callShutdown]

/-- A statement of a frame outside the loops leaves the flag and only appends to the lists. -/
theorem Core.Exec.idle (hx : s.Exec t f g o) (hf : f.running = false) :
    g.shutdownFlag = s.shutdownFlag ∧ ∀ p, s.hooks p <+: g.hooks p := by
  cases hx
  case hookAppend h phase =>
    refine ⟨rfl, fun p => ?_⟩
    by_cases hp : p = phase
    · subst hp; simp
    · simp [Function.update_noteq hp]
  case del | setFlag => simp [Frame.running] at hf
  all_goals exact ⟨rfl, fun p => List.prefix_refl _⟩

/-- A running frame goes on in the same call, past its checks. -/
theorem Core.Exec.running_next {c : Nat} {r : String} {pc : ShutdownPc}
    (hx : s.Exec t (.signalShutdown c r pc) g o)
    (hrun : (Frame.signalShutdown c r pc).running = true) :
    ∃ pc', Frame.signalShutdown c r pc' ∈ o.newFrames ∧
      (Frame.signalShutdown c r pc').afterRequest = true := by
  cases hx
  case del phase => exact ⟨phase.next, by simp [Outcome.newFrames], by cases phase <;> rfl⟩
  all_goals first
    | exact ⟨_, List.mem_cons_self _ _, rfl⟩
    | simp [Frame.running] at hrun

/-- One statement of the call past its checks: a hook called next in its list, the end of a
list, the list emptied, the flag set, or the statements after the loops. -/
theorem Core.Exec.orderOk_new (hx : s.Exec t f g o) (hin : s.inShutdown = true)
    (ha : f.afterRequest = true) (hok : f.orderOk s.hooks s.shutdownFlag s.trace) {x : Frame}
    (hxo : x ∈ o.newFrames) : x.orderOk g.hooks g.shutdownFlag g.trace := by
  cases hx <;>
    simp only [Outcome.newFrames, List.mem_cons, List.mem_singleton, List.not_mem_nil,
      or_false] at hxo <;>
    (try rcases hxo with hxo | hxo) <;> (try subst hxo)
  case invoke.inl call r phase i h hh =>
    obtain ⟨hflag, -, done, hp, hlog⟩ := hok
    refine ⟨hflag, (List.getElem?_eq_some_iff.mp hh).1, done, hp, ?_⟩
    rw [callLog_append, hlog, List.take_succ, hh]
    simp [callLog, Event.ofCall, phaseCalls, hin, hflag]
  case loopEnd call r phase i hh =>
    obtain ⟨hflag, -, done, hp, hlog⟩ := hok
    refine ⟨hflag, done, hp, _, List.take_prefix i _, ?_⟩
    rw [callLog_append, hlog]
    simp [callLog, Event.ofCall]
  case del call r phase =>
    obtain ⟨hflag, done, hp, C, hC, hlog⟩ := hok
    cases phase
    case client =>
      cases hp
      refine ⟨hflag, Nat.zero_le _, _, ⟨C, _, hC, rfl⟩, ?_⟩
      simp only [callLog_append, hlog]
      simp [callLog, Event.ofCall, phaseLog, phaseCalls]
    case pre =>
      obtain ⟨C', Cd', hC', rfl⟩ := hp
      refine ⟨hflag, C', Cd', C, _, hC', hC, ?_⟩
      simp only [callLog_append, hlog]
      simp [callLog, Event.ofCall, phaseLog]
    case normal =>
      obtain ⟨C', Cd', P, Pd, hC', hP, rfl⟩ := hp
      refine ⟨C', Cd', P, Pd, C, _, hC', hP, hC, ?_⟩
      simp only [callLog_append, hlog]
      simp [callLog, Event.ofCall, shutdownOrder, phaseLog]
  case setFlag call r =>
    exact ⟨rfl, Nat.zero_le _, _, hok.2,
      by simp [callLog_append, callLog, Event.ofCall, phaseCalls]⟩
  all_goals trivial

theorem Frame.eq_of_callId {x : Frame} {c : Nat} (h : x.callId = some c) :
    ∃ r pc, x = .signalShutdown c r pc := by
  cases x with
  | signalShutdown call r pc => cases h; exact ⟨r, pc, rfl⟩
  | _ => cases h

variable {rest : List Frame}

/-- A new frame of the call that set `_in_shutdown` knows its events after the step. -/
theorem Core.Exec.orderOk_apply (hx : s.Exec t f g o) (hst : s.stack t = f :: rest)
    (hl : s.Lifecycle) (hc : s.CallsOk) {c : Nat} (hev : Event.setInShutdown c false ∈ s.trace)
    (hok : f.callId = some c → f.orderOk s.hooks s.shutdownFlag s.trace) {x : Frame}
    (hxo : x ∈ o.newFrames) (hxc : x.callId = some c) :
    x.orderOk (g.apply t f rest o).hooks (g.apply t f rest o).shutdownFlag
      (g.apply t f rest o).trace := by
  obtain ⟨r, pc, rfl⟩ := Frame.eq_of_callId hxc
  rcases hx.shutdown_new hxo with ⟨pc', rfl, -⟩ | ⟨-, rfl, -⟩
  · have hf : _ ∈ s.stack t := hst ▸ List.mem_cons_self _ _
    have ha := hc.set_past c false hev t r pc' hf
    have hnew := hx.orderOk_new (hl.afterRequest t _ hf ha) ha (hok rfl) hxo
    obtain ⟨new, htr, hleave⟩ := g.apply_events t _ rest o
    refine Frame.orderOk_transport (fun k _ => ?_) (fun _ => ⟨by simp, fun p => by simp⟩) hnew
    rw [htr, callLog_append, callLog_leaves hleave, List.append_nil]
  · trivial

/-- A frame of call `c` below the running frame, or on another thread, keeps what it knows:
the running frame is of another call, and if the frame runs, the one that runs is not. -/
theorem Core.Exec.orderOk_other (hx : s.Exec t f g o) (hst : s.stack t = f :: rest)
    (hr : s.Reachable) {c u : Nat} {z : Frame} (hz : z ∈ s.stack u) (hzc : z.callId = some c)
    (hpos : u ≠ t ∨ z ∈ rest) (hok : z.orderOk s.hooks s.shutdownFlag s.trace) :
    z.orderOk (g.apply t f rest o).hooks (g.apply t f rest o).shutdownFlag
      (g.apply t f rest o).trace := by
  have hfc : f.callId ≠ some c := fun hk => by
    have huniq := Core.calls_unique hr.callsOk.nodup hst hk
    rcases hpos with hu | hz'
    · exact huniq.2 u hu z hz hzc
    · exact huniq.1 z hz' hzc
  have hfr : z.running = true → f.running = false := fun hzr => by
    cases hfr : f.running
    · rfl
    · rcases hpos with hu | hz'
      · exact absurd
          (Core.running_on_holder hr.lockOk (hst ▸ List.mem_cons_self _ _) hfr hz hzr) hu
      · have hnest : NestOk (f :: rest) := hst ▸ hr.nesting t
        simp [hnest.rest_idle hfr z hz'] at hzr
  obtain ⟨new, htr, hleave⟩ := g.apply_events t f rest o
  refine Frame.orderOk_transport (fun k hk => ?_) (fun hzr => ?_) hok
  · cases hzc.symm.trans hk
    rw [htr, callLog_append, callLog_leaves hleave, List.append_nil, hx.callLog_eq (.inl hfc)]
  · obtain ⟨h1, h2⟩ := hx.idle (hfr hzr)
    exact ⟨by simp [h1], fun p => by simpa using h2 p⟩

end Exec

/-! ### What a step does to the order -/

section Moves

variable {s s' : Core} {t : Nat}

/-- A step runs a statement of its thread's top frame, or leaves the lists, the flag and every
call's events as they were. -/
theorem Core.Moves.exec_or_quiet (hm : s.Moves t s') :
    (∃ f rest g o, s.stack t = f :: rest ∧ s.Exec t f g o ∧ s' = g.apply t f rest o) ∨
      (s'.hooks = s.hooks ∧ s'.shutdownFlag = s.shutdownFlag ∧
        ∀ c, callLog c s'.trace = callLog c s.trace) := by
  cases hm with
  | exec hst hx => exact .inl ⟨_, _, _, _, hst, hx, rfl⟩
  | chainLeave hst | leave hst =>
    obtain ⟨new, htr, hnew⟩ := s.leave_events t _ _ _
    exact .inr ⟨rfl, rfl, fun c => by
      rw [htr, callLog_append, callLog_leaves hnew, List.append_nil]⟩
  | call =>
    cases ‹Op› <;> exact .inr ⟨rfl, rfl, fun c => by
      simp [Core.callOp, Core.callShutdown, Core.setStack, callLog, Event.ofCall]⟩
  | _ => exact .inr ⟨rfl, rfl, fun _ => rfl⟩

/-- A step leaves call `c`'s events alone unless a running frame of `c` runs a statement. -/
theorem Core.Moves.callLog_or (hm : s.Moves t s') (c : Nat) :
    callLog c s'.trace = callLog c s.trace ∨
      ∃ r pc rest g o, s.stack t = .signalShutdown c r pc :: rest ∧
        (Frame.signalShutdown c r pc).running = true ∧ s.Exec t (.signalShutdown c r pc) g o ∧
        s' = g.apply t (.signalShutdown c r pc) rest o := by
  rcases hm.exec_or_quiet with ⟨f, rest, g, o, hst, hx, rfl⟩ | ⟨-, -, hlog⟩
  · by_cases hf : f.callId = some c ∧ f.running = true
    · obtain ⟨r, pc, rfl⟩ := Frame.eq_of_callId hf.1
      exact .inr ⟨r, pc, rest, g, o, hst, hf.2, hx, rfl⟩
    · obtain ⟨new, htr, hleave⟩ := g.apply_events t f rest o
      refine .inl ?_
      rw [htr, callLog_append, callLog_leaves hleave, List.append_nil,
        hx.callLog_eq (by simpa only [not_and_or, Bool.not_eq_true] using hf)]
  · exact .inl (hlog c)

theorem Outcome.mem_stackAfter_of_new {o : Outcome} {rest : List Frame} {x : Frame}
    (h : x ∈ o.newFrames) : x ∈ o.stackAfter rest := by
  cases o with
  | goto f => simp_all [Outcome.newFrames, Outcome.stackAfter]
  | call f child =>
    simp only [Outcome.newFrames, List.mem_cons, List.mem_singleton, List.not_mem_nil,
      or_false] at h
    rcases h with rfl | rfl <;> simp [Outcome.stackAfter]
  | done => simp [Outcome.newFrames] at h

/-- The frames of the call that set `_in_shutdown` know their events after every step. -/
theorem Core.Moves.orderOk_frames (hm : s.Moves t s') (hr : s.Reachable) (ho : s.OrderOk)
    {c : Nat} (hev : Event.setInShutdown c false ∈ s'.trace) {u : Nat} {x : Frame}
    (hx : x ∈ s'.stack u) (hxc : x.callId = some c) :
    x.orderOk s'.hooks s'.shutdownFlag s'.trace := by
  have hc := hr.callsOk
  by_cases hold : Event.setInShutdown c false ∈ s.trace
  · have hok := ho.frames c hold
    rcases hm.exec_or_quiet with ⟨f, rest, g, o, hst, hx', rfl⟩ | ⟨hh, hf, hlog⟩
    · have hin : ∀ {y}, y ∈ rest → y ∈ s.stack t :=
        fun hy => hst ▸ List.mem_cons_of_mem _ hy
      rw [Core.stack_apply (hx'.threads_eq ▸ Core.lt_of_stack_ne_nil (by simp [hst])),
        hx'.stack_eq] at hx
      split at hx
      · rcases Outcome.mem_stackAfter hx with hxo | hxr | ⟨y, hy, cc, hres⟩
        · exact hx'.orderOk_apply hst hr.lifecycle hc hold
            (hok t f (hst ▸ List.mem_cons_self _ _)) hxo hxc
        · exact hx'.orderOk_other hst hr (hin hxr) hxc (.inr hxr) (hok t x (hin hxr) hxc)
        · have hyc : y.callId = some c := (Frame.resume_call hres).1 ▸ hxc
          exact Frame.orderOk_resume hres
            (hx'.orderOk_other hst hr (hin hy) hyc (.inr hy) (hok t y (hin hy) hyc))
      · exact hx'.orderOk_other hst hr hx hxc (.inl ‹_›) (hok u x hx hxc)
    · have htrans : ∀ {z : Frame}, z.orderOk s.hooks s.shutdownFlag s.trace →
          z.orderOk s'.hooks s'.shutdownFlag s'.trace := fun hz =>
        Frame.orderOk_transport (fun k _ => hlog k)
          (fun _ => ⟨hf, fun p => hh ▸ List.prefix_refl _⟩) hz
      rcases hm.mem_stack hx with hx | ⟨y, hy, cc, hres⟩ | ⟨hnew, -⟩
      · exact htrans (hok u x hx hxc)
      · exact Frame.orderOk_resume hres
          (htrans (hok u y hy ((Frame.resume_call hres).1 ▸ hxc)))
      · cases hnew with
        | exec hst hx' hs' hxo =>
          subst hs'
          exact hx'.orderOk_apply hst hr.lifecycle hc hold
            (hok t _ (hst ▸ List.mem_cons_self _ _)) hxo hxc
        | call => cases ‹Op› <;> trivial
        | _ => simp [Frame.callId] at hxc
  · obtain ⟨r', rest, hst, hw, rfl⟩ := hm.setIn_new hev hold
    cases hc.setIn_frame hst rfl hx hxc
    have hflag : s.shutdownFlag = false :=
      Bool.eq_false_iff.mpr fun h => by simp [hr.lifecycle.flag_inShutdown h] at hw
    refine ⟨hflag, Nat.zero_le _, [], rfl, ?_⟩
    show callLog c (s.trace ++ _) = _
    rw [callLog_append, ho.quiet hw.symm c]
    simp [callLog, Event.ofCall, phaseCalls]

theorem Core.Moves.orderOk (hm : s.Moves t s') (hr : s.Reachable) (ho : s.OrderOk) :
    s'.OrderOk := by
  have hc := hr.callsOk
  have hsub : ∀ {e}, e ∈ s.trace → e ∈ s'.trace := fun he => hm.trace_prefix.subset he
  have hrunning : ∀ {c r pc rest}, s.stack t = .signalShutdown c r pc :: rest →
      (Frame.signalShutdown c r pc).running = true → s.inShutdown = true := fun hst hrun =>
    hr.lifecycle.afterRequest t _ (hst ▸ List.mem_cons_self _ _)
      (Frame.afterRequest_of_running hrun)
  refine ⟨fun hin' c => ?_, fun c c' h1 h2 => ?_, fun c hev u x hx hxc =>
    hm.orderOk_frames hr ho hev hx hxc, fun c hev => ?_⟩
  · have hin : s.inShutdown = false :=
      Bool.eq_false_iff.mpr fun h => by simp [hm.inShutdown_mono h] at hin'
    rcases hm.callLog_or c with h | ⟨r, pc, rest, g, o, hst, hrun, -⟩
    · exact h.trans (ho.quiet hin c)
    · simp [hrunning hst hrun] at hin
  · by_cases hold1 : Event.setInShutdown c false ∈ s.trace <;>
      by_cases hold2 : Event.setInShutdown c' false ∈ s.trace
    · exact ho.owner c c' hold1 hold2
    · obtain ⟨-, -, -, hw, -⟩ := hm.setIn_new h2 hold2
      simp [hc.set_in c false hold1] at hw
    · obtain ⟨-, -, -, hw, -⟩ := hm.setIn_new h1 hold1
      simp [hc.set_in c' false hold2] at hw
    · obtain ⟨_, _, hst1, _, _⟩ := hm.setIn_new h1 hold1
      obtain ⟨_, _, hst2, _, _⟩ := hm.setIn_new h2 hold2
      simp only [hst1, List.cons.injEq, Frame.signalShutdown.injEq] at hst2
      exact hst2.1.1
  · by_cases hold : Event.setInShutdown c false ∈ s.trace
    · rcases hm.callLog_or c with h | ⟨r, pc, rest, g, o, hst, hrun, hx, rfl⟩
      · obtain ⟨r, hstart, full, hfull, hpre⟩ := ho.ended c hold
        exact ⟨r, hsub hstart, full, hfull, h ▸ hpre⟩
      · obtain ⟨pc', hxo, ha⟩ := hx.running_next hrun
        have ht0 : t < s.threads.length := Core.lt_of_stack_ne_nil (by simp [hst])
        have ht : t < g.threads.length := hx.threads_eq ▸ ht0
        have hmem : Frame.signalShutdown c r pc' ∈
            (g.apply t (.signalShutdown c r pc) rest o).stack t := by
          rw [Core.stack_apply ht, if_pos rfl]
          exact Outcome.mem_stackAfter_of_new hxo
        obtain ⟨full, hfull, hpre⟩ :=
          Frame.orderOk_prefix (hm.orderOk_frames hr ho hev hmem rfl) ha
        exact ⟨r, hsub (hc.reason t c r pc (hst ▸ List.mem_cons_self _ _)), full, hfull, hpre⟩
    · obtain ⟨r', rest, hst, hw, rfl⟩ := hm.setIn_new hev hold
      refine ⟨r', hsub (hc.reason t c r' _ (hst ▸ List.mem_cons_self _ _)), _,
        ⟨[], [], [], [], [], [], List.prefix_refl _, List.prefix_refl _, List.prefix_refl _,
          rfl⟩,
        ?_⟩
      show callLog c (s.trace ++ _) <+: _
      rw [callLog_append, ho.quiet hw.symm c]
      simp [callLog, Event.ofCall]

end Moves

theorem Core.Reachable.orderOk {s : Core} (h : s.Reachable) : s.OrderOk := by
  induction h with
  | init =>
    exact ⟨fun _ _ => rfl, by simp [Core.init], by simp [Core.init], by simp [Core.init]⟩
  | step _ _ hr hs ih => exact (Core.moves_of_step hs).orderOk hr ih

/-! ### The order of a shutdown -/

/-- Thread 0 registers a client, a pre and a normal hook, then calls `signal_shutdown`, which
calls each hook, the hook returning, and reaches the end of its loops. -/
def orderedShutdown : List (Nat × Act) :=
  [(0, .call (addClientShutdownHook true)), (0, .exec), (0, .exec), (0, .exec),
   (0, .call (addPreshutdownHook true)), (0, .exec), (0, .exec), (0, .exec),
   (0, .call (addShutdownHook true)), (0, .exec), (0, .exec), (0, .exec),
   (0, .call (.signalShutdown "done")), (0, .exec), (0, .exec), (0, .exec), (0, .exec),
   (0, .exec), (0, .ret), (0, .exec), (0, .exec),
   (0, .exec), (0, .ret), (0, .exec), (0, .exec), (0, .exec),
   (0, .exec), (0, .ret), (0, .exec), (0, .exec)]

example : ((Core.init.run orderedShutdown).getD Core.init).stack 0 =
      [.signalShutdown 0 "done" .snapshot, .body] ∧
    callLog 0 ((Core.init.run orderedShutdown).getD Core.init).trace =
      shutdownOrder 0 "done" [0] [0] [1] [1] [2] [2] := by
  decide

end RospyCore
