import Mathlib

/-!
# The log file `configure_logging` names

`configure_logging(node_name)` names the node's log file after the node.  With no `__log`
remapping, the file is `node_name` with every `/` replaced by `_`, one leading `_` dropped, and
`.log` appended; a name that leaves nothing before `.log` is refused with `ROSException`.  The
`__log` remapping, when there is one, is used through `os.path.abspath`.  `get_mappings()` and
`os.path.abspath` are parameters (`logRemap`, `abspath`), and
`rosgraph.roslogging.configure_logging`, which opens the file, is outside the module: the
model returns the name it is handed.

`configure_logging_file`: of the node-name check, the names `""`, `"/"` and `"_"` are refused,
with the message that quotes them, and no other; every other name gives a file with a nonempty
stem before `.log` and no `/` in it, so a file directly in the log directory, never below it.
What `rosgraph.roslogging.configure_logging` may raise on that file is not modelled.  Distinct names can
share a file: `"/a/b"`, `"/a_b"` and `"a_b"` all log to `a_b.log`.
-/

namespace RospyCore

/-- `s.replace(a, b)` for one character `a`: every `a` becomes `b`. -/
def replaceChar (cs : List Char) (a b : Char) : List Char :=
  cs.map fun c => if c = a then b else c

/-- `configure_logging(node_name, level)`: the file name handed to
`rosgraph.roslogging.configure_logging`, or the `ROSException` message. -/
def configureLogging (abspath : String → String) (logRemap : Option String)
    (nodeName : String) : Except String String :=
  match logRemap with
  | some logfilenameRemap => .ok (abspath logfilenameRemap)
  | none =>
    let suffix := ".log"
    let filename : String := ⟨replaceChar nodeName.data '/' '_'⟩ ++ suffix
    let filename : String :=
      if filename.data.head? = some '_' then ⟨filename.data.drop 1⟩ else filename
    if filename = suffix then .error ("invalid configure_logging parameter: " ++ nodeName)
    else .ok filename

/-! ### The stem -/

/-- What stands before `.log`: the name with `/` replaced and one leading `_` dropped. -/
def logStem (nodeName : String) : List Char :=
  let r := replaceChar nodeName.data '/' '_'
  if r.head? = some '_' then r.drop 1 else r

/-- The name `configure_logging` builds, before its test. -/
theorem configureLogging_filename (nodeName : String) :
    (if ((⟨replaceChar nodeName.data '/' '_'⟩ : String) ++ ".log").data.head? = some '_' then
        (⟨((⟨replaceChar nodeName.data '/' '_'⟩ : String) ++ ".log").data.drop 1⟩ : String)
      else (⟨replaceChar nodeName.data '/' '_'⟩ : String) ++ ".log") =
      ⟨logStem nodeName ++ ".log".data⟩ := by
  unfold logStem
  generalize replaceChar nodeName.data '/' '_' = r
  cases r with
  | nil => simp [String.ext_iff]
  | cons c r => by_cases hc : c = '_' <;> simp [hc, String.ext_iff]

theorem configureLogging_none (abspath : String → String) (nodeName : String) :
    configureLogging abspath none nodeName =
      if logStem nodeName = [] then .error ("invalid configure_logging parameter: " ++ nodeName)
      else .ok ⟨logStem nodeName ++ ".log".data⟩ := by
  have hsuffix : ((⟨logStem nodeName ++ ".log".data⟩ : String) = ".log") ↔
      logStem nodeName = [] := by
    simp [String.ext_iff]
  dsimp only [configureLogging]
  rw [configureLogging_filename]
  simp only [hsuffix]

theorem not_mem_replaceChar (cs : List Char) (a b : Char) (h : a ≠ b) :
    a ∉ replaceChar cs a b := by
  simp only [replaceChar, List.mem_map, not_exists, not_and]
  intro c _
  split <;> simp_all [eq_comm]

theorem logStem_sublist (nodeName : String) :
    List.Sublist (logStem nodeName) (replaceChar nodeName.data '/' '_') := by
  dsimp only [logStem]
  split
  · exact List.drop_sublist 1 _
  · exact List.Sublist.refl _

theorem logStem_eq_nil (nodeName : String) :
    logStem nodeName = [] ↔ nodeName = "" ∨ nodeName = "/" ∨ nodeName = "_" := by
  unfold logStem
  rcases nodeName with ⟨_ | ⟨c, _ | ⟨d, cs⟩⟩⟩
  · simp [replaceChar, String.ext_iff]
  · by_cases hc : c = '/' <;> by_cases hu : c = '_' <;> simp [replaceChar, hc, hu, String.ext_iff]
  · simp only [replaceChar, List.map_cons, String.ext_iff]
    split_ifs <;> simp

/-! ### The file name -/

/-- **The log file name.**  With no `__log` remapping, the node-name check of
`configure_logging` raises exactly on the names `""`, `"/"` and `"_"`, and then only the
message quoting the name; every other name gives a file name with a nonempty stem, then
`.log`, and no `/`. -/
theorem configure_logging_file (abspath : String → String) (nodeName : String) :
    (∀ e, configureLogging abspath none nodeName = .error e ↔
      e = "invalid configure_logging parameter: " ++ nodeName ∧
        (nodeName = "" ∨ nodeName = "/" ∨ nodeName = "_")) ∧
    ∀ f, configureLogging abspath none nodeName = .ok f →
      '/' ∉ f.data ∧ ∃ stem, stem ≠ [] ∧ f.data = stem ++ ".log".data := by
  rw [configureLogging_none, ← logStem_eq_nil]
  refine ⟨fun e => ?_, fun f hf => ?_⟩
  · split
    · simp only [Except.error.injEq, and_true, *]; exact eq_comm
    · simp [*]
  · split at hf
    · cases hf
    · cases hf
      refine ⟨?_, _, ‹_›, rfl⟩
      have hno := not_mem_replaceChar nodeName.data '/' '_' (by decide)
      simp only [List.mem_append, not_or]
      exact ⟨fun h => hno ((logStem_sublist nodeName).subset h), by decide⟩

/-- Three names, one file. -/
example : configureLogging id none "/a/b" = .ok "a_b.log" ∧
    configureLogging id none "/a_b" = .ok "a_b.log" ∧
    configureLogging id none "a_b" = .ok "a_b.log" :=
  ⟨rfl, rfl, rfl⟩

end RospyCore
