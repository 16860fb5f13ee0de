import Mathlib
import RospyCore.Shutdown.Marks

/-!
# Every hook runs at most once

A hook is called from its list by a running `signal_shutdown` call, or at once by the
registration that found `_shutdown_flag` set.  Each registration call holds a hook of its
own, numbered when the call starts.  What rules out a second call of a hook
(`Core.HookInv`):

* the hooks the registrations still hold and the hooks in the three lists are all distinct,
  and none of the held hooks has been called (`nodup`, `held_new`);
* each list's hooks from its `consumed` mark on have not been called (`unconsumed`).

A running loop calls the hook at its mark (`Core.ConsumedOk`), so one that has not been
called, and a registration calls at once only the hook it holds.  So the trace never calls
a hook twice (`Core.Reachable.invoked_nodup`).
-/

namespace RospyCore

/-! ### Hooks -/

/-- The hook an event calls. -/
def Event.invokedHook : Event → Option Nat
  | .invoke h .. => some h
  | _ => none

/-- The hooks called so far, in order. -/
def Core.invoked (s : Core) : List Nat := s.trace.filterMap Event.invokedHook

/-- The hooks in the three lists. -/
def Core.listed (s : Core) : List Nat :=
  s.hooks .client ++ s.hooks .pre ++ s.hooks .normal

/-- The hook a registration holds before it appends it or calls it. -/
def Frame.heldHook : Frame → Option Nat
  | .addShutdownHook h _ .start | .addShutdownHook h _ .acquire
  | .addShutdownHook h _ .append => some h.id
  | _ => none

/-- The hooks a stack's registrations hold. -/
def heldOf (st : List Frame) : List Nat := st.filterMap Frame.heldHook

/-- The hooks all registrations hold. -/
def Core.held (s : Core) : List Nat := s.threads.flatMap heldOf

/-- The hook bookkeeping. -/
structure Core.HookInv (s : Core) : Prop where
  fresh : ∀ h ∈ s.held ++ s.listed ++ s.invoked, h < s.nextHook
  nodup : (s.held ++ s.listed).Nodup
  held_new : ∀ h ∈ s.held, h ∉ s.invoked
  unconsumed : ∀ p j h, s.consumed p ≤ j → (s.hooks p)[j]? = some h → h ∉ s.invoked
  invoked_nodup : s.invoked.Nodup

/-! ### Counting held hooks -/

theorem Frame.heldHook_resume {g g' : Frame} {c : Completion} (h : g.resume c = .inl g') :
    g'.heldHook = g.heldHook := by
  have hk := (Frame.resume_inl h).1
  cases g with
  | addShutdownHook h' phase pc =>
    cases pc <;> cases c <;> simp only [Frame.resume, Sum.inl.injEq, reduceCtorEq] at h <;>
      cases h <;> rfl
  | _ => cases g' <;> simp_all [Frame.kind, Frame.heldHook]

theorem count_heldOf_cons (f : Frame) (st : List Frame) (a : Nat) :
    (heldOf (f :: st)).count a = (heldOf st).count a + if f.heldHook = some a then 1 else 0 := by
  cases h : f.heldHook <;> simp [heldOf, List.filterMap_cons, h, List.count_cons]

/-- Unwinding drops held hooks, and adds none. -/
theorem count_heldOf_unwind (rest : List Frame) (c : Completion) (a : Nat) :
    (heldOf (unwind rest c).1).count a ≤ (heldOf rest).count a := by
  have := congrArg (List.count a)
    (unwind_filterMap Frame.heldHook (fun _ _ _ h => Frame.heldHook_resume h) rest c)
  rw [List.count_append] at this
  unfold heldOf
  omega

theorem count_flatMap_set (F : List Frame → List Nat) {l : List (List Frame)} {t : Nat}
    (ht : t < l.length) (st : List Frame) (a : Nat) :
    ((l.set t st).flatMap F).count a + (F (l.getD t [])).count a =
      (l.flatMap F).count a + (F st).count a := by
  induction l generalizing t with
  | nil => simp at ht
  | cons x xs ih =>
    cases t with
    | zero =>
      simp only [List.set_cons_zero, List.flatMap_cons, List.getD_cons_zero, List.count_append]
      omega
    | succ t =>
      have := ih (Nat.lt_of_succ_lt_succ ht)
      simp only [List.set_cons_succ, List.flatMap_cons, List.getD_cons_succ, List.count_append]
      omega

/-- Replacing a stack replaces the hooks it holds. -/
theorem Core.count_held_setStack {s : Core} {t : Nat} (ht : t < s.threads.length)
    (st : List Frame) (a : Nat) :
    (s.setStack t st).held.count a + (heldOf (s.stack t)).count a =
      s.held.count a + (heldOf st).count a :=
  count_flatMap_set heldOf ht st a

theorem Core.held_apply {s g : Core} (hthreads : g.threads = s.threads) (t : Nat) (f : Frame)
    (rest : List Frame) (o : Outcome) :
    (g.apply t f rest o).held = (s.setStack t (o.stackAfter rest)).held := by
  cases o <;> simp [Core.apply, Core.leave, Core.setStack, Core.held, Outcome.stackAfter, hthreads]

theorem Core.count_held_apply {s g : Core} {t : Nat} {f : Frame} {rest : List Frame}
    (hthreads : g.threads = s.threads) (hst : s.stack t = f :: rest) (o : Outcome) (a : Nat) :
    (g.apply t f rest o).held.count a + (heldOf (f :: rest)).count a =
      s.held.count a + (heldOf (o.stackAfter rest)).count a := by
  rw [Core.held_apply hthreads, ← hst]
  exact Core.count_held_setStack (Core.lt_of_stack_ne_nil (by simp [hst])) _ a

/-! ### Called hooks -/

theorem Frame.invokedHook_endEvent {f : Frame} {c : Completion} {e : Event}
    (h : f.endEvent c = some e) : e.invokedHook = none := by
  cases f <;> simp only [Frame.endEvent, Option.some.injEq, reduceCtorEq] at h <;> subst h <;> rfl

@[simp] theorem Core.invoked_leave (s : Core) (t : Nat) (top : Frame) (rest : List Frame)
    (c : Completion) : (s.leave t top rest c).invoked = s.invoked := by
  simp only [Core.invoked, Core.leave, List.filterMap_append, List.append_right_eq_self,
    List.filterMap_eq_nil_iff, List.mem_filterMap]
  rintro e ⟨x, -, hx⟩
  exact Frame.invokedHook_endEvent hx

@[simp] theorem Core.invoked_apply (s : Core) (t : Nat) (top : Frame) (rest : List Frame)
    (o : Outcome) : (s.apply t top rest o).invoked = s.invoked := by
  cases o with
  | done c => exact Core.invoked_leave s t top rest c
  | _ => rfl

@[simp] theorem Core.invoked_setStack (s : Core) (t : Nat) (st : List Frame) :
    (s.setStack t st).invoked = s.invoked := rfl

/-! ### The lists -/

section Bookkeeping

variable {s g : Core}

theorem mem_of_count_le {l l' : List Nat} (h : ∀ a, l.count a ≤ l'.count a) {a : Nat}
    (ha : a ∈ l) : a ∈ l' :=
  List.count_pos_iff.mp ((List.count_pos_iff.mpr ha).trans_le (h a))

theorem Core.mem_listed {p : Phase} {j h : Nat} (hh : (s.hooks p)[j]? = some h) :
    h ∈ s.listed := by
  have : h ∈ s.hooks p := List.mem_iff_getElem?.mpr ⟨j, hh⟩
  cases p <;> simp [Core.listed, this]

/-- The lists hold each hook once: at one index of one list. -/
theorem Core.listed_index_unique (hnd : s.listed.Nodup) {p q : Phase} {j k h : Nat}
    (hp : (s.hooks p)[j]? = some h) (hq : (s.hooks q)[k]? = some h) : p = q ∧ j = k := by
  have mem : ∀ {p j}, (s.hooks p)[j]? = some h → h ∈ s.hooks p :=
    fun hh => List.mem_iff_getElem?.mpr ⟨_, hh⟩
  obtain ⟨⟨hc, hpre, hcp⟩, hn, hcn, hpn⟩ := by
    simpa only [Core.listed, List.nodup_append, List.disjoint_append_left] using hnd
  by_cases hpq : p = q
  · subst hpq
    refine ⟨rfl, List.getElem?_inj (List.getElem?_eq_some_iff.mp hp).1 ?_ (hp.trans hq.symm)⟩
    cases p <;> assumption
  · exfalso
    have hp' := mem hp
    have hq' := mem hq
    cases p <;> cases q <;> first
      | exact hpq rfl | exact hcp hp' hq' | exact hcp hq' hp' | exact hcn hp' hq'
      | exact hcn hq' hp' | exact hpn hp' hq' | exact hpn hq' hp'

theorem Core.HookInv.lt_next (hi : s.HookInv) {x : Nat}
    (hx : x ∈ s.held ∨ x ∈ s.listed ∨ x ∈ s.invoked) : x < s.nextHook :=
  hi.fresh x (by simpa [or_assoc] using hx)

theorem Core.HookInv.not_held_of_listed (hi : s.HookInv) {x : Nat} (hl : x ∈ s.listed) :
    x ∉ s.held :=
  fun hh => List.disjoint_of_nodup_append hi.nodup hh hl

/-- A step that only drops held hooks, or empties lists, keeps the bookkeeping. -/
theorem Core.HookInv.shrink (hi : s.HookInv) (hheld : ∀ a, g.held.count a ≤ s.held.count a)
    (hhooks : ∀ p, (g.hooks p = s.hooks p ∧ g.consumed p = s.consumed p) ∨ g.hooks p = [])
    (hinv : g.invoked = s.invoked) (hnext : g.nextHook = s.nextHook) : g.HookInv := by
  have hlisted : ∀ a, g.listed.count a ≤ s.listed.count a := fun a => by
    have hp : ∀ p, (g.hooks p).count a ≤ (s.hooks p).count a := fun p => by
      rcases hhooks p with ⟨h, -⟩ | h <;> simp [h]
    simp only [Core.listed, List.count_append]
    have := hp .client; have := hp .pre; have := hp .normal
    omega
  have hpool : ∀ a, (g.held ++ g.listed).count a ≤ (s.held ++ s.listed).count a := fun a => by
    simp only [List.count_append]; have := hheld a; have := hlisted a; omega
  refine ⟨fun x hx => ?_, ?_, fun x hx => ?_, fun p j x hj hget => ?_, hinv ▸ hi.invoked_nodup⟩
  · rw [List.mem_append] at hx
    rw [hnext]
    rcases hx with hx | hx
    · exact hi.fresh x (List.mem_append_left _ (mem_of_count_le hpool hx))
    · exact hi.lt_next (.inr (.inr (hinv ▸ hx)))
  · exact List.nodup_iff_count_le_one.mpr fun a =>
      (hpool a).trans (List.nodup_iff_count_le_one.mp hi.nodup a)
  · exact hinv ▸ hi.held_new x (mem_of_count_le hheld hx)
  · rcases hhooks p with ⟨hh, hc⟩ | hh
    · rw [hinv]
      exact hi.unconsumed p j x (hc ▸ hj) (hh ▸ hget)
    · simp [hh] at hget

/-- A loop's call of the hook at its mark keeps the bookkeeping. -/
theorem Core.HookInv.invoke {phase : Phase} {i h : Nat} (hi : s.HookInv)
    (hh : (s.hooks phase)[i]? = some h) (hci : s.consumed phase = i)
    (hheld : ∀ a, g.held.count a = s.held.count a) (hhooks : g.hooks = s.hooks)
    (hcons : g.consumed = Function.update s.consumed phase (i + 1))
    (hinv : g.invoked = s.invoked ++ [h]) (hnext : g.nextHook = s.nextHook) : g.HookInv := by
  have hnew : h ∉ s.invoked := hi.unconsumed phase i h hci.le hh
  have hlisted : h ∈ s.listed := Core.mem_listed hh
  have hlisted' : g.listed = s.listed := by simp [Core.listed, hhooks]
  have hmem : ∀ {a}, a ∈ g.held → a ∈ s.held := mem_of_count_le fun a => (hheld a).le
  refine ⟨fun x hx => ?_, ?_, fun x hx => ?_, fun p j x hj hget => ?_, ?_⟩
  · simp only [List.mem_append, hinv, hlisted', List.mem_singleton, hnext] at hx ⊢
    rcases hx with (hx | hx) | hx | rfl
    · exact hi.lt_next (.inl (hmem hx))
    · exact hi.lt_next (.inr (.inl hx))
    · exact hi.lt_next (.inr (.inr hx))
    · exact hi.lt_next (.inr (.inl hlisted))
  · rw [hlisted']
    exact List.nodup_iff_count_le_one.mpr fun a => by
      have := List.nodup_iff_count_le_one.mp hi.nodup a
      simp only [List.count_append, hheld] at this ⊢
      exact this
  · rw [hinv, List.mem_append, List.mem_singleton, not_or]
    exact ⟨hi.held_new x (hmem hx), fun hxh => hi.not_held_of_listed hlisted (hxh ▸ hmem hx)⟩
  · rw [hhooks] at hget
    have hle : s.consumed p ≤ g.consumed p := by
      rw [hcons]
      by_cases hp : p = phase
      · subst hp; simp [hci]
      · simp [Function.update_noteq hp]
    rw [hinv, List.mem_append, List.mem_singleton, not_or]
    refine ⟨hi.unconsumed p j x (hle.trans hj) hget, fun hxh => ?_⟩
    subst hxh
    obtain ⟨rfl, rfl⟩ := Core.listed_index_unique hi.nodup.of_append_right hget hh
    simp [hcons] at hj
  · rw [hinv]
    exact List.nodup_append.mpr ⟨hi.invoked_nodup, List.nodup_singleton _,
      List.disjoint_singleton.mpr hnew⟩

/-- A registration's call of its own hook keeps the bookkeeping. -/
theorem Core.HookInv.immediate {h : Nat} (hi : s.HookInv) (hh : h ∈ s.held)
    (hheld : ∀ a, (g.held ++ [h]).count a = s.held.count a) (hhooks : g.hooks = s.hooks)
    (hcons : g.consumed = s.consumed) (hinv : g.invoked = s.invoked ++ [h])
    (hnext : g.nextHook = s.nextHook) : g.HookInv := by
  have hnew : h ∉ s.invoked := hi.held_new h hh
  have hlisted' : g.listed = s.listed := by simp [Core.listed, hhooks]
  have hle : ∀ a, g.held.count a ≤ s.held.count a := fun a => by
    have := hheld a; rw [List.count_append] at this; omega
  have hmem : ∀ {a}, a ∈ g.held → a ∈ s.held := mem_of_count_le hle
  have hone := List.nodup_iff_count_le_one.mp hi.nodup
  refine ⟨fun x hx => ?_, ?_, fun x hx => ?_, fun p j x hj hget => ?_, ?_⟩
  · simp only [List.mem_append, hinv, hlisted', List.mem_singleton, hnext] at hx ⊢
    rcases hx with (hx | hx) | hx | rfl
    · exact hi.lt_next (.inl (hmem hx))
    · exact hi.lt_next (.inr (.inl hx))
    · exact hi.lt_next (.inr (.inr hx))
    · exact hi.lt_next (.inl hh)
  · rw [hlisted']
    exact List.nodup_iff_count_le_one.mpr fun a => by
      have h1 := hone a
      have h2 := hle a
      rw [List.count_append] at h1 ⊢
      omega
  · rw [hinv, List.mem_append, List.mem_singleton, not_or]
    refine ⟨hi.held_new x (hmem hx), fun hxh => ?_⟩
    subst hxh
    have h1 := hheld x
    have h2 := hone x
    have h3 := List.count_pos_iff.mpr hx
    simp only [List.count_append, List.count_singleton_self] at h1 h2
    omega
  · rw [hhooks] at hget
    rw [hinv, List.mem_append, List.mem_singleton, not_or]
    refine ⟨hi.unconsumed p j x (hcons ▸ hj) hget, fun hxh => ?_⟩
    exact hi.not_held_of_listed (Core.mem_listed hget) (hxh ▸ hh)
  · rw [hinv]
    exact List.nodup_append.mpr ⟨hi.invoked_nodup, List.nodup_singleton _,
      List.disjoint_singleton.mpr hnew⟩

/-- A registration's append of its hook to a list keeps the bookkeeping. -/
theorem Core.HookInv.append {phase : Phase} {h : Nat} (hi : s.HookInv) (hh : h ∈ s.held)
    (hheld : ∀ a, (g.held ++ [h]).count a ≤ s.held.count a)
    (hhooks : g.hooks = Function.update s.hooks phase (s.hooks phase ++ [h]))
    (hcons : g.consumed = s.consumed) (hinv : g.invoked = s.invoked)
    (hnext : g.nextHook = s.nextHook) : g.HookInv := by
  have hlisted : ∀ a, g.listed.count a = s.listed.count a + [h].count a := fun a => by
    cases phase <;>
      simp only [Core.listed, hhooks, Function.update_apply, List.count_append, reduceCtorEq,
        if_true, if_false] <;> omega
  have hle : ∀ a, g.held.count a ≤ s.held.count a := fun a => by
    have := hheld a; rw [List.count_append] at this; omega
  have hmem : ∀ {a}, a ∈ g.held → a ∈ s.held := mem_of_count_le hle
  refine ⟨fun x hx => ?_, ?_, fun x hx => by rw [hinv]; exact hi.held_new x (hmem hx),
    fun p j x hj hget => ?_, hinv ▸ hi.invoked_nodup⟩
  · simp only [List.mem_append, hinv] at hx
    rw [hnext]
    rcases hx with (hx | hx) | hx
    · exact hi.lt_next (.inl (hmem hx))
    · have := List.count_pos_iff.mpr hx
      rw [hlisted] at this
      by_cases hxh : x = h
      · exact hi.lt_next (.inl (hxh ▸ hh))
      · exact hi.lt_next (.inr (.inl (List.count_pos_iff.mp (by simpa [hxh] using this))))
    · exact hi.lt_next (.inr (.inr hx))
  · exact List.nodup_iff_count_le_one.mpr fun a => by
      have h1 := List.nodup_iff_count_le_one.mp hi.nodup a
      have h2 := hheld a
      simp only [List.count_append, hlisted] at h1 h2 ⊢
      omega
  · rw [hinv]
    by_cases hp : p = phase
    · subst hp
      rw [hhooks, Function.update_same] at hget
      by_cases hj' : j < (s.hooks p).length
      · rw [List.getElem?_append_left hj'] at hget
        exact hi.unconsumed p j x (hcons ▸ hj) hget
      · rw [List.getElem?_append_right (not_lt.mp hj')] at hget
        rw [List.mem_singleton.mp (List.mem_iff_getElem?.mpr ⟨_, hget⟩)]
        exact hi.held_new _ hh
    · rw [hhooks, Function.update_noteq hp] at hget
      exact hi.unconsumed p j x (hcons ▸ hj) hget

/-- A registration call taking a new number keeps the bookkeeping. -/
theorem Core.HookInv.register (hi : s.HookInv)
    (hheld : ∀ a, g.held.count a = (s.held ++ [s.nextHook]).count a) (hhooks : g.hooks = s.hooks)
    (hcons : g.consumed = s.consumed) (hinv : g.invoked = s.invoked)
    (hnext : g.nextHook = s.nextHook + 1) : g.HookInv := by
  have hlisted' : g.listed = s.listed := by simp [Core.listed, hhooks]
  have hout : s.nextHook ∉ s.held ++ s.listed ++ s.invoked := fun h => by
    simpa using hi.fresh _ h
  have hmem : ∀ {a}, a ∈ g.held → a ∈ s.held ∨ a = s.nextHook := fun hx => by
    simpa using mem_of_count_le (fun a => (hheld a).le) hx
  refine ⟨fun x hx => ?_, ?_, fun x hx => ?_, fun p j x hj hget => ?_, hinv ▸ hi.invoked_nodup⟩
  · simp only [List.mem_append, hinv, hlisted', hnext] at hx ⊢
    rcases hx with (hx | hx) | hx
    · rcases hmem hx with hx | rfl
      · exact Nat.lt_succ_of_lt (hi.lt_next (.inl hx))
      · exact Nat.lt_succ_self _
    · exact Nat.lt_succ_of_lt (hi.lt_next (.inr (.inl hx)))
    · exact Nat.lt_succ_of_lt (hi.lt_next (.inr (.inr hx)))
  · rw [hlisted']
    exact List.nodup_iff_count_le_one.mpr fun a => by
      have h1 := List.nodup_iff_count_le_one.mp hi.nodup a
      rw [List.count_append, hheld, List.count_append]
      rw [List.count_append] at h1
      by_cases ha : a = s.nextHook
      · subst ha
        have h2 : (s.held ++ s.listed).count s.nextHook = 0 :=
          List.count_eq_zero.mpr fun h => hout (List.mem_append_left _ h)
        rw [List.count_append] at h2
        rw [List.count_singleton_self]
        omega
      · have h2 : [s.nextHook].count a = 0 :=
          List.count_eq_zero.mpr fun h => ha (List.mem_singleton.mp h)
        omega
  · rw [hinv]
    rcases hmem hx with hx | rfl
    · exact hi.held_new x hx
    · exact fun h => hout (List.mem_append_right _ h)
  · rw [hhooks] at hget
    exact hinv ▸ hi.unconsumed p j x (hcons ▸ hj) hget

/-- A registration's hook is held. -/
theorem Core.mem_held {t : Nat} {f : Frame} {x : Nat} (hf : f ∈ s.stack t)
    (hx : f.heldHook = some x) : x ∈ s.held := by
  have ht := Core.lt_of_stack_ne_nil (List.ne_nil_of_mem hf)
  refine List.mem_flatMap.mpr ⟨s.stack t, ?_, List.mem_filterMap.mpr ⟨f, hf, hx⟩⟩
  simp only [Core.stack, List.getD_eq_getElem?_getD, List.getElem?_eq_getElem ht,
    Option.getD_some]
  exact List.getElem_mem ht

theorem Core.count_held_setStack_le {t : Nat} {st : List Frame} (ht : t < s.threads.length)
    (h : ∀ a, (heldOf st).count a ≤ (heldOf (s.stack t)).count a) (a : Nat) :
    (s.setStack t st).held.count a ≤ s.held.count a := by
  have := Core.count_held_setStack ht st a
  have := h a
  omega

/-! ### Every reachable state -/

/-- A statement keeps the bookkeeping. -/
theorem Core.Exec.hookInv {t : Nat} {f : Frame} {o : Outcome} {rest : List Frame}
    (hx : s.Exec t f g o) (hc : s.ConsumedOk) (hi : s.HookInv) (hst : s.stack t = f :: rest) :
    (g.apply t f rest o).HookInv := by
  have hf : f ∈ s.stack t := hst ▸ List.mem_cons_self _ _
  have hcount := fun a => Core.count_held_apply hx.threads_eq hst o a
  have hdone : ∀ c, o = .done c → ∀ a, (heldOf (unwind rest c).1).count a ≤ (heldOf rest).count a :=
    fun c _ a => count_heldOf_unwind rest c a
  cases hx
  case invoke phase i h hh =>
    refine hi.invoke hh (hc.running t _ hf rfl).1 (fun a => ?_) rfl rfl ?_ rfl
    · have := hcount a
      simp only [Outcome.stackAfter, count_heldOf_cons, Frame.heldHook, reduceCtorEq, if_false,
        Option.some.injEq] at this
      omega
    · rw [Core.invoked_apply]
      simp [Core.invoked, List.filterMap_append, Event.invokedHook]
  case hookImmediate h phase _ _ =>
    refine hi.immediate (Core.mem_held hf rfl) (fun a => ?_) rfl rfl ?_ rfl
    · have := hcount a
      simp only [Outcome.stackAfter, count_heldOf_cons, Frame.heldHook, reduceCtorEq, if_false,
        Option.some.injEq, List.count_append,
        List.count_singleton, beq_iff_eq, Option.some.injEq] at this ⊢
      omega
    · rw [Core.invoked_apply]
      simp [Core.invoked, List.filterMap_append, Event.invokedHook]
  case hookAppend h phase =>
    refine hi.append (Core.mem_held hf rfl) (fun a => ?_) rfl rfl (Core.invoked_leave ..) rfl
    have := hcount a
    have := count_heldOf_unwind rest .ret a
    simp only [Outcome.stackAfter, count_heldOf_cons, Frame.heldHook, reduceCtorEq, if_false,
        Option.some.injEq, List.count_append,
      List.count_singleton, beq_iff_eq, Option.some.injEq] at *
    omega
  case del phase =>
    refine hi.shrink (fun a => ?_) (fun p => ?_) ?_ rfl
    · have := hcount a
      simp only [Outcome.stackAfter, count_heldOf_cons, Frame.heldHook, reduceCtorEq, if_false,
        Option.some.injEq] at this
      omega
    · by_cases hp : p = phase
      · exact .inr (by subst hp; simp [Core.apply, Core.setStack])
      · exact .inl (by simp [Core.apply, Core.setStack, Function.update_noteq hp])
    · rw [Core.invoked_apply]
      simp [Core.invoked, List.filterMap_append, Event.invokedHook]
  all_goals
    refine hi.shrink (fun a => ?_) (fun _ => .inl ⟨rfl, rfl⟩) ?_ rfl
    · have h1 := hcount a
      simp only [Outcome.stackAfter, count_heldOf_cons, Frame.heldHook, reduceCtorEq, if_false,
        Option.some.injEq, Core.callShutdown] at h1 ⊢
      first
      | omega
      | (have h2 := hdone _ rfl a
         omega)
    · simp only [Core.invoked_apply] <;>
        simp [Core.invoked, List.filterMap_append, Event.invokedHook, Core.callShutdown]

/-- Every step keeps the bookkeeping. -/
theorem Core.Moves.hookInv {s' : Core} {t : Nat} (hm : s.Moves t s') (hc : s.ConsumedOk)
    (hi : s.HookInv) : s'.HookInv := by
  have hne : ∀ {f rest}, s.stack t = f :: rest → t < s.threads.length :=
    fun h => Core.lt_of_stack_ne_nil (by simp [h])
  cases hm with
  | exec hst hx => exact hx.hookInv hc hi hst
  | chainCall hst =>
    refine hi.shrink (Core.count_held_setStack_le (hne hst) fun a => ?_)
      (fun _ => .inl ⟨rfl, rfl⟩) rfl rfl
    simp [hst, count_heldOf_cons, Frame.heldHook]
  | chainLeave hst | leave hst =>
    refine hi.shrink (Core.count_held_setStack_le (hne hst) fun a => ?_)
      (fun _ => .inl ⟨rfl, rfl⟩) (Core.invoked_leave ..) rfl
    rw [hst, count_heldOf_cons]
    exact (count_heldOf_unwind _ _ a).trans (Nat.le_add_right _ _)
  | @call op rest hst =>
    have hsame : ((s.callOp op).1.setStack t ((s.callOp op).2 :: .body :: rest)).held =
        (s.setStack t ((s.callOp op).2 :: .body :: rest)).held := by
      cases op <;> rfl
    have hcount := fun a => Core.count_held_setStack (hne hst) ((s.callOp op).2 :: .body :: rest) a
    simp only [← hsame, hst, count_heldOf_cons, Frame.heldHook, reduceCtorEq, if_false,
      Nat.add_zero] at hcount
    cases op with
    | addShutdownHook phase callable =>
      refine hi.register (fun a => ?_) rfl rfl rfl rfl
      have := hcount a
      simp only [Core.callOp, Frame.heldHook, Option.some.injEq, List.count_append,
        List.count_singleton, beq_iff_eq] at this ⊢
      omega
    | _ =>
      refine hi.shrink (fun a => ?_) (fun _ => .inl ⟨rfl, rfl⟩) ?_ rfl
      · have := hcount a
        simp only [Core.callOp, Core.callShutdown, Frame.heldHook, reduceCtorEq, if_false]
          at this ⊢
        omega
      · simp [Core.callOp, Core.callShutdown, Core.invoked, Core.setStack, Event.invokedHook]
  | signal _ hne' =>
    refine hi.shrink (Core.count_held_setStack_le (Core.lt_of_stack_ne_nil hne') fun a => ?_)
      (fun _ => .inl ⟨rfl, rfl⟩) rfl rfl
    simp [count_heldOf_cons, Frame.heldHook]
  | spawn =>
    refine hi.shrink (fun a => ?_) (fun _ => .inl ⟨rfl, rfl⟩) rfl rfl
    simp [Core.held, heldOf, Frame.heldHook]
  | exit _ => exact ⟨hi.1, hi.2, hi.3, hi.4, hi.5⟩

theorem Core.hookInv_init : Core.init.HookInv := by
  refine ⟨?_, ?_, ?_, fun p j h _ hh => ?_, ?_⟩ <;>
    simp_all [Core.init, Core.held, Core.listed, Core.invoked, heldOf, Frame.heldHook]

theorem Core.Reachable.hookInv (h : s.Reachable) : s.HookInv := by
  induction h with
  | init => exact Core.hookInv_init
  | step _ _ hr hs ih => exact (Core.moves_of_step hs).hookInv hr.consumedOk ih

/-- No hook is called twice. -/
theorem Core.Reachable.invoked_nodup (h : s.Reachable) : s.invoked.Nodup :=
  h.hookInv.invoked_nodup

end Bookkeeping

end RospyCore
