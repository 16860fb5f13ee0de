import RospyCore.Logging.Throttle

/-!
# `throttle_identical` over whole runs

A `log*_throttle_identical(P, msg, *args)` call consults two tables: `LoggingIdentical`,
which keeps the hash of the site's last `msg`, and `LoggingThrottle`, which keeps the time
the site's throttle last fired.  It is logged if either says so.  The two tables advance
under different conditions: the hash is stored at every call (it changes only when `msg`
does), the time only when the throttle fires, not when a changed message is logged.

`identical_tables` is the joint invariant on a nondecreasing clock: the first table holds the
hash of the site's previous `msg` (`prevMsg`), the second the time of the last firing of the
site's throttle (`lastFire`, the throttle's own timeline).  `throttle_identical_law` reads the
decision off it: a call is logged exactly when its `msg` differs from the previous one or
more than `P` has passed since the throttle last fired.  `msg` is the format string: the
arguments are not compared, and the timer is not the time of the last log
(`throttle_identical_counterexample`).
-/

namespace RospyCore

/-- A call of `log*_throttle_identical(P, msg, ...)`. -/
def IsIdenticalCall (c : LogCall) (P : Int) : Prop :=
  c.args.once = false ∧ c.args.throttleIdentical = true ∧ c.args.throttle = some P

/-- The `msg` of site `k`'s previous call. -/
def prevMsg (k : CallerId) (h : List (LogCall × Bool)) : Option String :=
  h.foldl (fun acc e => if e.1.caller = k then some e.1.msg else acc) none

/-- The time site `k`'s throttle last fired, on its own timeline: it fires at the first call
and at every call more than `P` after its previous firing. -/
def lastFire (k : CallerId) (P : Int) (h : List (LogCall × Bool)) : Option Int :=
  h.foldl (fun acc e =>
    if e.1.caller = k ∧ ∀ t, acc = some t → e.1.now - t > P then some e.1.now else acc) none

@[simp] theorem prevMsg_append_singleton (k : CallerId) (h : List (LogCall × Bool))
    (e : LogCall × Bool) :
    prevMsg k (h ++ [e]) = if e.1.caller = k then some e.1.msg else prevMsg k h := by
  simp [prevMsg, List.foldl_append]

@[simp] theorem lastFire_append_singleton (k : CallerId) (P : Int) (h : List (LogCall × Bool))
    (e : LogCall × Bool) :
    lastFire k P (h ++ [e]) =
      if e.1.caller = k ∧ ∀ t, lastFire k P h = some t → e.1.now - t > P then some e.1.now
      else lastFire k P h := by
  simp [lastFire, List.foldl_append]

namespace LoggingIdentical

variable (md5 : String → String) (t : LoggingIdentical) (k : CallerId) (msg : String)

theorem call_table_self : (t.call md5 k msg).1.lastLoggingMsgTable k = some (md5 msg) := by
  unfold call
  split
  · simp
  · simp_all

theorem call_table_other {k' : CallerId} (h : k' ≠ k) :
    (t.call md5 k msg).1.lastLoggingMsgTable k' = t.lastLoggingMsgTable k' := by
  unfold call
  split <;> simp [h]

theorem call_emits :
    (t.call md5 k msg).2 = true ↔ t.lastLoggingMsgTable k ≠ some (md5 msg) := by
  unfold call
  split <;> simp_all [eq_comm]

end LoggingIdentical

section Md5

variable (md5 : String → String)

theorem baseLogger_loggingIdentical (s : Loggers) (c : LogCall) :
    (baseLogger md5 s c).1.loggingIdentical =
      if c.args.once = false ∧ c.args.throttleIdentical = true then
        (s.loggingIdentical.call md5 c.caller c.msg).1
      else s.loggingIdentical := by
  unfold baseLogger
  by_cases h1 : c.args.once <;> by_cases h2 : c.args.throttleIdentical <;> simp [h1, h2]
  split <;> simp

theorem emits_of_identical {s : Loggers} {c : LogCall} {P : Int} (hc : IsIdenticalCall c P) :
    emits md5 s c = ((s.loggingIdentical.call md5 c.caller c.msg).2 ||
      (s.loggingThrottle.call c.now c.caller P).2) := by
  obtain ⟨h1, h2, h3⟩ := hc
  simp only [emits, baseLogger, h1, h2, h3, Bool.false_eq_true, if_false, if_true]
  cases (s.loggingIdentical.call md5 c.caller c.msg).2 <;>
    cases (s.loggingThrottle.call c.now c.caller P).2 <;> rfl

theorem throttlePeriod_of_identical {c : LogCall} {P : Int} (hc : IsIdenticalCall c P) :
    c.throttlePeriod = some P := by
  obtain ⟨h1, h2, h3⟩ := hc
  simp [LogCall.throttlePeriod, h1, h2, h3]

/-- **The joint invariant** of the two tables at a `throttle_identical` site, on a
nondecreasing clock. -/
theorem identical_tables (pre : List LogCall) (k : CallerId) (P : Int)
    (hk : ∀ d ∈ pre, d.caller = k → IsIdenticalCall d P)
    (hmono : pre.Pairwise fun a b => a.now ≤ b.now) :
    (logRun md5 Loggers.init pre).loggingIdentical.lastLoggingMsgTable k =
        (prevMsg k (history md5 Loggers.init pre)).map md5 ∧
      (logRun md5 Loggers.init pre).loggingThrottle.lastLoggingTimeTable k =
        lastFire k P (history md5 Loggers.init pre) := by
  induction pre using List.reverseRecOn with
  | nil => exact ⟨rfl, rfl⟩
  | append_singleton pre c ih =>
    rw [List.pairwise_append] at hmono
    obtain ⟨ihm, iht⟩ := ih (fun d hd => hk d (by simp [hd])) hmono.1
    have hle : ∀ s, (logRun md5 Loggers.init pre).loggingThrottle.lastLoggingTimeTable c.caller =
        some s → s ≤ c.now := fun s hs => by
      obtain ⟨d, hd, rfl⟩ := throttleTable_from_run md5 pre hs
      exact hmono.2.2 d hd c (List.mem_singleton_self c)
    rw [logRun_append_singleton, history_append_singleton, prevMsg_append_singleton,
      lastFire_append_singleton, baseLogger_loggingIdentical, baseLogger_loggingThrottle]
    by_cases hck : c.caller = k
    · have hc := hk c (by simp) hck
      subst hck
      simp only [throttlePeriod_of_identical hc, if_pos (And.intro hc.1 hc.2.1),
        LoggingIdentical.call_table_self, LoggingThrottle.call_table_self, if_true, true_and,
        Option.map_some']
      rw [← iht]
      by_cases hf : ((logRun md5 Loggers.init pre).loggingThrottle.call c.now c.caller P).2
      · have := (LoggingThrottle.call_emits _ _ _ _).1 hf
        rw [if_pos hf, if_pos fun t ht => (this t ht).resolve_right (not_lt.2 (hle t ht))]
      · rw [if_neg hf, if_neg fun h => hf ((LoggingThrottle.call_emits _ _ _ _).2
          fun t ht => Or.inl (h t ht))]
    · simp only [hck, false_and, if_false]
      refine ⟨?_, ?_⟩
      · split
        · rw [LoggingIdentical.call_table_other _ _ _ _ (Ne.symm hck), ihm]
        · exact ihm
      · split
        · rw [LoggingThrottle.call_table_other_of_le _ _ _ _ (Ne.symm hck) hle, iht]
        · exact iht

/-- The previous `msg` at a site is the `msg` of a call of the run. -/
theorem prevMsg_mem (s : Loggers) (k : CallerId) {m : String} :
    ∀ {pre : List LogCall}, prevMsg k (history md5 s pre) = some m → ∃ d ∈ pre, d.msg = m := by
  intro pre
  induction pre using List.reverseRecOn with
  | nil => simp [prevMsg, history]
  | append_singleton pre c ih =>
    rw [history_append_singleton, prevMsg_append_singleton]
    split
    · intro h; cases h; exact ⟨c, by simp, rfl⟩
    · intro h; obtain ⟨d, hd, rfl⟩ := ih h; exact ⟨d, by simp [hd], rfl⟩

/-- **The `throttle_identical` law.**  On a nondecreasing clock, with no two format strings of
the run sharing an `md5`, a call is logged exactly when its `msg` is not its site's previous
`msg` (so always the first call) or more than `P` has passed since its site's throttle last
fired. -/
theorem throttle_identical_law (pre : List LogCall) (c : LogCall) (P : Int)
    (hc : IsIdenticalCall c P) (hsite : ∀ d ∈ pre, d.caller = c.caller → IsIdenticalCall d P)
    (hmono : (pre ++ [c]).Pairwise fun a b => a.now ≤ b.now)
    (hmd5 : ∀ d ∈ pre ++ [c], ∀ d' ∈ pre ++ [c], md5 d.msg = md5 d'.msg → d.msg = d'.msg) :
    emits md5 (logRun md5 Loggers.init pre) c = true ↔
      prevMsg c.caller (history md5 Loggers.init pre) ≠ some c.msg ∨
        ∀ t, lastFire c.caller P (history md5 Loggers.init pre) = some t → c.now - t > P := by
  rw [List.pairwise_append] at hmono
  obtain ⟨hm, ht⟩ := identical_tables md5 pre c.caller P hsite hmono.1
  rw [emits_of_identical md5 hc, Bool.or_eq_true, LoggingIdentical.call_emits,
    LoggingThrottle.call_emits, hm, ht]
  refine or_congr ?_ (forall_congr' fun t => imp_congr_right fun hs => or_iff_left fun hlt => ?_)
  · cases hp : prevMsg c.caller (history md5 Loggers.init pre) with
    | none => simp
    | some m =>
      obtain ⟨d, hd, rfl⟩ := prevMsg_mem md5 Loggers.init c.caller hp
      simp only [Option.map_some', ne_eq, Option.some.injEq]
      exact not_congr ⟨hmd5 d (List.mem_append_left _ hd) c (List.mem_append_right _
        (List.mem_singleton_self c)), congrArg md5⟩
  · obtain ⟨d, hd, rfl⟩ := throttleTable_from_run md5 pre (ht.trans hs)
    exact absurd (hmono.2.2 d hd c (List.mem_singleton_self c)) (not_le.2 hlt)

theorem throttle_identical_law_witness :
    let a : LogCall := ⟨loginfoThrottleIdentical 10, "a", [], none, ⟨"n.py", 3, 8⟩, 0⟩
    let c : LogCall := { a with msg := "b", now := 4 }
    IsIdenticalCall c 10 ∧ (∀ d ∈ [a], d.caller = c.caller → IsIdenticalCall d 10) ∧
      ([a] ++ [c]).Pairwise (fun a b => a.now ≤ b.now) ∧
      (∀ d ∈ [a] ++ [c], ∀ d' ∈ [a] ++ [c], id d.msg = id d'.msg → d.msg = d'.msg) ∧
      (emits id (logRun id Loggers.init [a]) c = true ↔
        prevMsg c.caller (history id Loggers.init [a]) ≠ some c.msg ∨
          ∀ t, lastFire c.caller 10 (history id Loggers.init [a]) = some t → c.now - t > 10) := by
  intro a c
  have hc : IsIdenticalCall c 10 := ⟨rfl, rfl, rfl⟩
  have hsite : ∀ d ∈ [a], d.caller = c.caller → IsIdenticalCall d 10 := by
    simp only [List.mem_singleton, forall_eq]
    exact fun _ => ⟨rfl, rfl, rfl⟩
  have hmono : ([a] ++ [c]).Pairwise (fun a b => a.now ≤ b.now) := by decide
  have hmd5 : ∀ d ∈ [a] ++ [c], ∀ d' ∈ [a] ++ [c], id d.msg = id d'.msg → d.msg = d'.msg :=
    fun _ _ _ _ h => h
  exact ⟨hc, hsite, hmono, hmd5, throttle_identical_law id [a] c 10 hc hsite hmono hmd5⟩

end Md5

/-! ### What the rendered text and the last log would predict -/

/-- `msg % args` for `%s` and `%%`, the part of Python's `%` formatting used below. -/
def percentFormat : List Char → List String → List Char
  | '%' :: 's' :: cs, a :: as => a.data ++ percentFormat cs as
  | '%' :: '%' :: cs, as => '%' :: percentFormat cs as
  | c :: cs, as => c :: percentFormat cs as
  | [], _ => []

/-- The text `logging` writes for a call: `msg % args`, or `msg` with no arguments. -/
def LogCall.rendered (c : LogCall) : String :=
  if c.msgArgs = [] then c.msg else ⟨percentFormat c.msg.data c.msgArgs⟩

/-- Two runs at one site with `P = 10`, on a nondecreasing clock.  In the first, `x=%s` with
`1` and then with `2` renders two different texts, yet the second call is suppressed: only
`msg` is hashed.  In the second, `a`, `b`, `b` at times `0`, `5`, `12`: the third call
renders the same text as the second, which was logged `7 ≤ 10` ns before, yet it is logged:
the throttle last fired at `0`, not at `5`. -/
theorem throttle_identical_counterexample :
    let x1 : LogCall := ⟨loginfoThrottleIdentical 10, "x=%s", ["1"], none, ⟨"n.py", 3, 8⟩, 0⟩
    let x2 : LogCall := { x1 with msgArgs := ["2"], now := 1 }
    let y1 : LogCall := { x1 with msg := "a", msgArgs := [] }
    let y2 : LogCall := { y1 with msg := "b", now := 5 }
    let y3 : LogCall := { y2 with now := 12 }
    (emits id (logRun id Loggers.init [x1]) x2 = false ∧ x2.rendered ≠ x1.rendered) ∧
      (emits id (logRun id Loggers.init [y1, y2]) y3 = true ∧ y3.rendered = y2.rendered ∧
        lastEmitted y3.caller (history id Loggers.init [y1, y2]) = some 5 ∧ ¬ ((12 : Int) - 5 > 10)) := by
  decide

end RospyCore
