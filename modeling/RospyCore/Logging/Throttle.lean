import RospyCore.Logging.Base

/-!
# The throttle table over whole runs

`LoggingThrottle`'s table is shared by every call site, and any call can drop all of it
(the clock-jump rule).  What a call site can rely on is the invariant `throttleTable_at`:
its entry is either gone or the time of its own last throttled log (`lastThrottled`).  With a
clock that never goes back nothing is ever dropped, and the entry is exactly that time
(`throttleTable_at_of_monotone`).

From these, `throttle_law`: a `log*_throttle` call with a nonzero period is suppressed only
within `[s, s + P]` of its site's last throttled log at `s`, and on a nondecreasing clock it is
logged exactly when there is no such log or more than `P` has passed, whatever the other
call sites do.  A period of `0` is false in Python, so `_base_logger` takes the unconditional
branch and the call is always logged (`emits_of_throttle_zero`).
-/

namespace RospyCore

/-! ### One call of `LoggingThrottle` -/

namespace LoggingThrottle

variable (t : LoggingThrottle) (now : Int) (k : CallerId) (p : Int)

theorem call_table_self :
    (t.call now k p).1.lastLoggingTimeTable k =
      if (t.call now k p).2 then some now else t.lastLoggingTimeTable k := by
  unfold call
  split
  · simp
  · split
    · simp
    · split <;> simp [*]

theorem call_table_other {k' : CallerId} (h : k' ≠ k) :
    (t.call now k p).1.lastLoggingTimeTable k' = t.lastLoggingTimeTable k' ∨
      (t.call now k p).1.lastLoggingTimeTable k' = none := by
  unfold call
  split
  · simp [h]
  · split
    · simp [h]
    · split <;> simp [h]

/-- With no stored time after `now`, the table is not dropped. -/
theorem call_table_other_of_le {k' : CallerId} (h : k' ≠ k)
    (hle : ∀ s, t.lastLoggingTimeTable k = some s → s ≤ now) :
    (t.call now k p).1.lastLoggingTimeTable k' = t.lastLoggingTimeTable k' := by
  unfold call
  split
  · simp [h]
  · rename_i s hs
    have := hle s hs
    split
    · simp [h]
    · rw [if_neg (by omega)]

theorem call_emits :
    (t.call now k p).2 = true ↔
      ∀ s, t.lastLoggingTimeTable k = some s → now - s > p ∨ s > now := by
  unfold call
  split
  · simp [*]
  · rename_i s hs
    simp only [hs, Option.some.injEq, forall_eq']
    split
    · simp [*]
    · split <;> simp [*]

/-- A stored time comes from some call's clock reading. -/
theorem call_table_mem {k' : CallerId} {s : Int}
    (h : (t.call now k p).1.lastLoggingTimeTable k' = some s) :
    s = now ∨ t.lastLoggingTimeTable k' = some s := by
  unfold call at h
  split at h
  · by_cases hk : k' = k
    · subst hk; simp at h; exact Or.inl h.symm
    · simp [hk] at h; exact Or.inr h
  · split at h
    · by_cases hk : k' = k
      · subst hk; simp at h; exact Or.inl h.symm
      · simp [hk] at h; exact Or.inr h
    · split at h
      · by_cases hk : k' = k
        · subst hk; simp at h; exact Or.inl h.symm
        · simp [hk] at h
      · exact Or.inr h

end LoggingThrottle

/-! ### What `_base_logger` does to the throttle table -/

/-- The period `_base_logger` hands to `LoggingThrottle`, if it calls it. -/
def LogCall.throttlePeriod (c : LogCall) : Option Int :=
  if c.args.once then none
  else if c.args.throttleIdentical then c.args.throttle
  else if throttleSet c.args.throttle then c.args.throttle
  else none

/-- A call of `log*_throttle(period, ...)`: the `throttle` policy with this period. -/
def IsThrottleCall (c : LogCall) (p : Int) : Prop :=
  c.args.once = false ∧ c.args.throttleIdentical = false ∧ c.args.throttle = some p

section Md5

variable (md5 : String → String)

theorem baseLogger_loggingThrottle (s : Loggers) (c : LogCall) :
    (baseLogger md5 s c).1.loggingThrottle =
      match c.throttlePeriod with
      | some p => (s.loggingThrottle.call c.now c.caller p).1
      | none => s.loggingThrottle := by
  unfold baseLogger LogCall.throttlePeriod
  split
  · simp [*]
  · split
    · cases c.args.throttle <;> simp [*]
    · split
      · obtain ⟨p, hp⟩ : ∃ p, c.args.throttle = some p := by
          cases h : c.args.throttle <;> simp_all [throttleSet]
        simp [*]
      · simp [*]

theorem emits_of_throttle {s : Loggers} {c : LogCall} {p : Int} (hc : IsThrottleCall c p)
    (hp : p ≠ 0) : emits md5 s c = (s.loggingThrottle.call c.now c.caller p).2 := by
  obtain ⟨h1, h2, h3⟩ := hc
  simp only [emits, baseLogger, h1, h2, h3, throttleSet, hp, Bool.false_eq_true, if_false,
    ne_eq, not_false_eq_true, decide_True, if_true, Option.getD_some]
  cases (s.loggingThrottle.call c.now c.caller p).2 <;> rfl

/-- **A period of `0` logs unconditionally.** -/
theorem emits_of_throttle_zero {s : Loggers} {c : LogCall} (hc : IsThrottleCall c 0) :
    emits md5 s c = true := by
  obtain ⟨h1, h2, h3⟩ := hc
  simp [emits, baseLogger, h1, h2, h3, throttleSet]

theorem throttlePeriod_of_throttle {c : LogCall} {p : Int} (hc : IsThrottleCall c p)
    (hp : p ≠ 0) : c.throttlePeriod = some p := by
  obtain ⟨h1, h2, h3⟩ := hc
  simp [LogCall.throttlePeriod, h1, h2, h3, throttleSet, hp]

theorem throttlePeriod_of_throttle_zero {c : LogCall} (hc : IsThrottleCall c 0) :
    c.throttlePeriod = none := by
  obtain ⟨h1, h2, h3⟩ := hc
  simp [LogCall.throttlePeriod, h1, h2, h3, throttleSet]

end Md5

/-! ### A call site's own entry over a run -/

/-- A logged call at site `k` that went through `LoggingThrottle`. -/
def throttledAt (k : CallerId) (e : LogCall × Bool) : Bool :=
  e.2 && decide (e.1.caller = k) && e.1.throttlePeriod.isSome

/-- The clock reading of site `k`'s last logged call that went through `LoggingThrottle`. -/
def lastThrottled (k : CallerId) (h : List (LogCall × Bool)) : Option Int :=
  h.foldl (fun acc e => if throttledAt k e then some e.1.now else acc) none

@[simp] theorem lastThrottled_nil (k : CallerId) : lastThrottled k [] = none := rfl

@[simp] theorem lastThrottled_append_singleton (k : CallerId) (h : List (LogCall × Bool))
    (e : LogCall × Bool) :
    lastThrottled k (h ++ [e]) = if throttledAt k e then some e.1.now else lastThrottled k h := by
  simp [lastThrottled, List.foldl_append]

section Md5

variable (md5 : String → String)

/-- Every stored time is the clock reading of a call of the run. -/
theorem throttleTable_from_run (pre : List LogCall) {k : CallerId} {t : Int}
    (h : (logRun md5 Loggers.init pre).loggingThrottle.lastLoggingTimeTable k = some t) :
    ∃ d ∈ pre, d.now = t := by
  induction pre using List.reverseRecOn generalizing k t with
  | nil => simp [Loggers.init] at h
  | append_singleton pre c ih =>
    rw [logRun_append_singleton, baseLogger_loggingThrottle] at h
    split at h
    · rcases LoggingThrottle.call_table_mem _ _ _ _ h with rfl | h
      · exact ⟨c, by simp, rfl⟩
      · obtain ⟨d, hd, rfl⟩ := ih h
        exact ⟨d, by simp [hd], rfl⟩
    · obtain ⟨d, hd, rfl⟩ := ih h
      exact ⟨d, by simp [hd], rfl⟩

/-- **The entry of a throttle-only site** is gone or the time of its last throttled log. -/
theorem throttleTable_at (pre : List LogCall) (k : CallerId)
    (hk : ∀ d ∈ pre, d.caller = k → ∃ p, IsThrottleCall d p) :
    (logRun md5 Loggers.init pre).loggingThrottle.lastLoggingTimeTable k = none ∨
      (logRun md5 Loggers.init pre).loggingThrottle.lastLoggingTimeTable k =
        lastThrottled k (history md5 Loggers.init pre) := by
  induction pre using List.reverseRecOn with
  | nil => exact Or.inl rfl
  | append_singleton pre c ih =>
    have ih := ih fun d hd => hk d (by simp [hd])
    rw [logRun_append_singleton, history_append_singleton, lastThrottled_append_singleton,
      baseLogger_loggingThrottle]
    split
    · rename_i p hp
      by_cases hck : c.caller = k
      · obtain ⟨q, hq⟩ := hk c (by simp) hck
        have hq0 : q ≠ 0 := fun h0 => by
          rw [throttlePeriod_of_throttle_zero (h0 ▸ hq)] at hp; cases hp
        obtain rfl : q = p := Option.some.inj ((throttlePeriod_of_throttle hq hq0).symm.trans hp)
        subst hck
        rw [LoggingThrottle.call_table_self, throttledAt, emits_of_throttle md5 hq hq0, hp]
        cases (Loggers.loggingThrottle (logRun md5 Loggers.init pre)).call c.now c.caller q |>.2
        · simpa using ih
        · simp
      · have hne : throttledAt k (c, emits md5 (logRun md5 Loggers.init pre) c) = false := by
          simp [throttledAt, hck]
        rw [hne, if_neg (by simp)]
        rcases LoggingThrottle.call_table_other _ c.now c.caller p (Ne.symm hck) with h | h
        · rw [h]; exact ih
        · exact Or.inl h
    · rename_i hp
      have hne : throttledAt k (c, emits md5 (logRun md5 Loggers.init pre) c) = false := by
        simp [throttledAt, hp]
      rw [hne, if_neg (by simp)]
      exact ih

/-- **On a nondecreasing clock the entry is exact**: nothing is ever dropped. -/
theorem throttleTable_at_of_monotone (pre : List LogCall) (k : CallerId)
    (hk : ∀ d ∈ pre, d.caller = k → ∃ p, IsThrottleCall d p)
    (hmono : pre.Pairwise fun a b => a.now ≤ b.now) :
    (logRun md5 Loggers.init pre).loggingThrottle.lastLoggingTimeTable k =
      lastThrottled k (history md5 Loggers.init pre) := by
  induction pre using List.reverseRecOn with
  | nil => rfl
  | append_singleton pre c ih =>
    rw [List.pairwise_append] at hmono
    have ih := ih (fun d hd => hk d (by simp [hd])) hmono.1
    rw [logRun_append_singleton, history_append_singleton, lastThrottled_append_singleton,
      baseLogger_loggingThrottle]
    split
    · rename_i p hp
      by_cases hck : c.caller = k
      · obtain ⟨q, hq⟩ := hk c (by simp) hck
        have hq0 : q ≠ 0 := fun h0 => by
          rw [throttlePeriod_of_throttle_zero (h0 ▸ hq)] at hp; cases hp
        obtain rfl : q = p := Option.some.inj ((throttlePeriod_of_throttle hq hq0).symm.trans hp)
        subst hck
        rw [LoggingThrottle.call_table_self, throttledAt, emits_of_throttle md5 hq hq0, hp, ← ih]
        cases (Loggers.loggingThrottle (logRun md5 Loggers.init pre)).call c.now c.caller q |>.2
          <;> simp
      · have hne : throttledAt k (c, emits md5 (logRun md5 Loggers.init pre) c) = false := by
          simp [throttledAt, hck]
        rw [hne, if_neg (by simp), ← ih]
        refine LoggingThrottle.call_table_other_of_le _ _ _ _ (Ne.symm hck) fun s hs => ?_
        obtain ⟨d, hd, rfl⟩ := throttleTable_from_run md5 pre hs
        exact hmono.2.2 d hd c (List.mem_singleton_self c)
    · rename_i hp
      have hne : throttledAt k (c, emits md5 (logRun md5 Loggers.init pre) c) = false := by
        simp [throttledAt, hp]
      rw [hne, if_neg (by simp)]
      exact ih

/-- **The throttle law.**  A period of `0` always logs.  A call with a nonzero period `p` is
suppressed only within `[s, s + p]` of its site's last throttled log at `s`, so a clock that
jumps back never keeps a site silent; on a nondecreasing clock it is logged exactly when its
site has no throttled log yet or more than `p` has passed since it, whatever other sites
(throttled, `throttle_identical` or `once`) do. -/
theorem throttle_law (pre : List LogCall) (c : LogCall) (p : Int) (hc : IsThrottleCall c p)
    (hsite : ∀ d ∈ pre, d.caller = c.caller → ∃ q, IsThrottleCall d q) :
    (p = 0 → emits md5 (logRun md5 Loggers.init pre) c = true) ∧
    (p ≠ 0 → emits md5 (logRun md5 Loggers.init pre) c = false →
      ∃ s, lastThrottled c.caller (history md5 Loggers.init pre) = some s ∧
        s ≤ c.now ∧ c.now ≤ s + p) ∧
    (p ≠ 0 → (pre ++ [c]).Pairwise (fun a b => a.now ≤ b.now) →
      (emits md5 (logRun md5 Loggers.init pre) c = true ↔
        ∀ s, lastThrottled c.caller (history md5 Loggers.init pre) = some s → c.now - s > p)) := by
  refine ⟨fun h0 => emits_of_throttle_zero md5 (h0 ▸ hc), fun hp hoff => ?_, fun hp hmono => ?_⟩
  · rw [emits_of_throttle md5 hc hp, ← Bool.not_eq_true, LoggingThrottle.call_emits] at hoff
    push_neg at hoff
    obtain ⟨s, hs, h1, h2⟩ := hoff
    rcases throttleTable_at md5 pre c.caller hsite with h | h
    · rw [h] at hs; cases hs
    · exact ⟨s, h ▸ hs, by omega, by omega⟩
  · rw [List.pairwise_append] at hmono
    have hexact := throttleTable_at_of_monotone md5 pre c.caller hsite hmono.1
    rw [emits_of_throttle md5 hc hp, LoggingThrottle.call_emits, hexact]
    refine forall_congr' fun s => imp_congr_right fun hs => or_iff_left fun hlt => ?_
    obtain ⟨d, hd, rfl⟩ := throttleTable_from_run md5 pre (hexact.trans hs)
    exact absurd (hmono.2.2 d hd c (List.mem_singleton_self c)) (not_le.2 hlt)

theorem throttle_law_two_sites :
    let a : LogCall := ⟨loginfoThrottle 1000, "a", [], none, ⟨"a.py", 1, 0⟩, 0⟩
    let b : LogCall := ⟨logwarnOnce, "b", [], some "sub", ⟨"b.py", 2, 0⟩, 500⟩
    let c : LogCall := { a with now := 1100 }
    IsThrottleCall c 1000 ∧ (∀ d ∈ [a, b], d.caller = c.caller → ∃ q, IsThrottleCall d q) ∧
      ((1000 : Int) = 0 → emits id (logRun id Loggers.init [a, b]) c = true) ∧
      ((1000 : Int) ≠ 0 → emits id (logRun id Loggers.init [a, b]) c = false →
        ∃ s, lastThrottled c.caller (history id Loggers.init [a, b]) = some s ∧
          s ≤ c.now ∧ c.now ≤ s + 1000) ∧
      ((1000 : Int) ≠ 0 → ([a, b] ++ [c]).Pairwise (fun a b => a.now ≤ b.now) →
        (emits id (logRun id Loggers.init [a, b]) c = true ↔
          ∀ s, lastThrottled c.caller (history id Loggers.init [a, b]) = some s →
            c.now - s > 1000)) := by
  intro a b c
  have hc : IsThrottleCall c 1000 := ⟨rfl, rfl, rfl⟩
  have hsite : ∀ d ∈ [a, b], d.caller = c.caller → ∃ q, IsThrottleCall d q := by
    intro d hd
    simp only [List.mem_cons, List.mem_singleton, List.not_mem_nil, or_false] at hd
    rcases hd with rfl | rfl
    · exact fun _ => ⟨1000, rfl, rfl, rfl⟩
    · intro h; exact absurd h (by decide)
  exact ⟨hc, hsite, throttle_law id [a, b] c 1000 hc hsite⟩

end Md5

/-- The clock reading of site `k`'s most recent logged call, whatever its policy. -/
def lastEmitted (k : CallerId) (h : List (LogCall × Bool)) : Option Int :=
  h.foldl (fun acc e => if e.2 && decide (e.1.caller = k) then some e.1.now else acc) none

/-- Two `loginfo_throttle(0, ...)` calls at one site and one clock reading are both logged,
though the site's last log is `0` ns old, not more than the period `0`. -/
theorem throttle_zero_period_logs_twice :
    let c : LogCall := ⟨loginfoThrottle 0, "tick", [], none, ⟨"node.py", 7, 12⟩, 0⟩
    emits id (logRun id Loggers.init [c]) c = true ∧
      lastEmitted c.caller (history id Loggers.init [c]) = some 0 ∧ ¬ (c.now - 0 > 0) := by
  decide

end RospyCore
