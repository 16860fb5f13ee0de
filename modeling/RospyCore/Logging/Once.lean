import RospyCore.Logging.Base

/-!
# `log*_once` over whole runs

`LoggingOnce` keeps the call sites that have logged in one set, `called_caller_ids`, a class
attribute shared by every call site; only the `once` branch of `_base_logger` reads or writes
it.  After any run of calls, of any policies, a site is in the set exactly when it was there at
the start or the run made a `once` call there (`onceTable_mem`).  From it, `once_law`: after a
run from the import-time tables, a `log*_once` call is logged exactly when its site made no
`once` call before it, whatever the other calls of the run are.
-/

namespace RospyCore

/-! ### One call of `LoggingOnce` -/

namespace LoggingOnce

variable (o : LoggingOnce) (k : CallerId)

theorem call_mem (k' : CallerId) :
    k' ∈ (o.call k).1.calledCallerIds ↔ k' = k ∨ k' ∈ o.calledCallerIds := by
  unfold call
  split
  · simp
  · rename_i hk
    simp only [not_not] at hk
    exact ⟨Or.inr, fun h => h.elim (fun e => e ▸ hk) id⟩

theorem call_emits : (o.call k).2 = true ↔ k ∉ o.calledCallerIds := by
  unfold call
  split <;> simp [*]

end LoggingOnce

/-! ### What `_base_logger` does to the set -/

section Md5

variable (md5 : String → String)

theorem baseLogger_loggingOnce (s : Loggers) (c : LogCall) :
    (baseLogger md5 s c).1.loggingOnce =
      if c.args.once then (s.loggingOnce.call c.caller).1 else s.loggingOnce := by
  unfold baseLogger
  split
  · simp [*]
  · split
    · simp [*]
    · split <;> simp [*]

theorem emits_of_once {s : Loggers} {c : LogCall} (hc : c.args.once = true) :
    emits md5 s c = (s.loggingOnce.call c.caller).2 := by
  simp only [emits, baseLogger, hc, if_true]
  cases (s.loggingOnce.call c.caller).2 <;> rfl

/-- **The set over a run**: a site is in it exactly when it was at the start or a `once` call
of the run was made there. -/
theorem onceTable_mem (s : Loggers) (pre : List LogCall) (k : CallerId) :
    k ∈ (logRun md5 s pre).loggingOnce.calledCallerIds ↔
      k ∈ s.loggingOnce.calledCallerIds ∨ ∃ d ∈ pre, d.args.once = true ∧ d.caller = k := by
  induction pre using List.reverseRecOn with
  | nil => simp
  | append_singleton pre c ih =>
    rw [logRun_append_singleton, baseLogger_loggingOnce]
    split
    case isTrue hc =>
      rw [LoggingOnce.call_mem, ih]
      constructor
      · rintro (rfl | h | ⟨d, hd, h⟩)
        · exact Or.inr ⟨c, by simp, hc, rfl⟩
        · exact Or.inl h
        · exact Or.inr ⟨d, by simp [hd], h⟩
      · rintro (h | ⟨d, hd, h⟩)
        · exact Or.inr (Or.inl h)
        · rcases List.mem_append.1 hd with hd | hd
          · exact Or.inr (Or.inr ⟨d, hd, h⟩)
          · obtain rfl := List.mem_singleton.1 hd
            exact Or.inl h.2.symm
    case isFalse hc =>
      rw [ih]
      simp [or_and_right, exists_or, hc]

/-- **The once law.**  After any run of calls from the import-time tables, a `log*_once` call
is logged exactly when no earlier call of the run at its site was a `once` call. -/
theorem once_law (pre : List LogCall) (c : LogCall) (hc : c.args.once = true) :
    emits md5 (logRun md5 Loggers.init pre) c = true ↔
      ∀ d ∈ pre, d.args.once = true → d.caller ≠ c.caller := by
  rw [emits_of_once md5 hc, LoggingOnce.call_emits, onceTable_mem]
  simp [Loggers.init]

theorem once_law_after_throttle :
    let a : LogCall := ⟨loginfoOnce, "a", [], none, ⟨"a.py", 3, 0⟩, 0⟩
    let b : LogCall := ⟨logwarnThrottle 1000, "b", [], none, ⟨"a.py", 3, 0⟩, 10⟩
    a.args.once = true ∧
      (emits id (logRun id Loggers.init [b, a]) a = true ↔
        ∀ d ∈ [b, a], d.args.once = true → d.caller ≠ a.caller) := by
  intro a b
  exact ⟨rfl, once_law id [b, a] a rfl⟩

/-- A site's first `once` call is logged even after a throttled call there; its second is
not. -/
example :
    let a : LogCall := ⟨loginfoOnce, "a", [], none, ⟨"a.py", 3, 0⟩, 0⟩
    let b : LogCall := ⟨logwarnThrottle 1000, "b", [], none, ⟨"a.py", 3, 0⟩, 10⟩
    emits id (logRun id Loggers.init [b]) a = true ∧
      emits id (logRun id Loggers.init [b, a]) a = false := by
  decide

end Md5

end RospyCore
