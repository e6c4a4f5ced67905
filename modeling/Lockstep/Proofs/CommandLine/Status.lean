import Lockstep.CommandLine
import Lockstep.Proofs.Suite.Order
import Lockstep.Snapshot

/-!
# The status of the command line

The suite of a directory and the runs of given manifests end with success just when all that
they are asked for loads, runs and passes, and there is something to run.
-/

namespace Lockstep

namespace CommandLine

open Suite

variable {h : Host Id} {limit : Nat} {wait : Bool} {path directory : String}
  {paths read names rest : List String} {ts : List Timed} {f : Option Failure}

/-! ## Arguments -/

/-- Of the arguments after the command, the only option is `--time`. -/
def OnlyTime (rest : List String) : Prop :=
  ∀ a ∈ rest, isOption a = true → a = "--time"

instance : Decidable (OnlyTime rest) :=
  inferInstanceAs (Decidable (∀ a ∈ rest, isOption a = true → a = "--time"))

/-- The arguments after the command that are no options. -/
def operands (rest : List String) : List String :=
  rest.filter fun a => !isOption a

theorem OnlyTime.not_mem (hrest : OnlyTime rest) {a : String} (hoption : isOption a = true)
    (hne : a ≠ "--time") : a ∉ rest :=
  fun hmem => hne (hrest a hmem hoption)

theorem OnlyTime.find_unknown (hrest : OnlyTime rest) :
    (rest.find? fun a => isOption a && a != "--time") = none := by
  rw [List.find?_eq_none]
  intro a hmem hfound
  simp only [Bool.and_eq_true, bne_iff_ne] at hfound
  exact hfound.2 (hrest a hmem hfound.1)

theorem OnlyTime.ofArguments_suite (hrest : OnlyTime rest) : Request.ofArguments ("suite" :: rest) =
    .ok (.suite (operands rest).head?, rest.contains "--time") := by
  have hhelp : "--help" ∉ rest := hrest.not_mem (by decide) (by decide)
  have hshort : "-h" ∉ rest := hrest.not_mem (by decide) (by decide)
  simp [Request.ofArguments, hhelp, hshort, hrest.find_unknown, operands]

theorem OnlyTime.ofArguments_run (hrest : OnlyTime rest) (hne : operands rest ≠ []) :
    Request.ofArguments ("run" :: rest) = .ok (.run (operands rest), rest.contains "--time") := by
  have hhelp : "--help" ∉ rest := hrest.not_mem (by decide) (by decide)
  have hshort : "-h" ∉ rest := hrest.not_mem (by decide) (by decide)
  have hsome : ¬ ∀ a ∈ rest, isOption a = true := by simpa [operands] using hne
  simp [Request.ofArguments, hhelp, hshort, hrest.find_unknown, operands, hsome]

/-! ## Outcomes -/

theorem isPass_eq (x : Except Failure Timed) :
    isPass x = (x.map (·.report)).toOption.any (·.passed) := by
  cases x <;> rfl

theorem isPass_iff (hf : h.Faithful) :
    isPass (runFile h limit wait path) = true ↔ Passes h limit wait path := by
  rw [isPass_eq, report_runFile hf, passes_iff]

theorem status_suiteOutcome {rs : List (String × Except Failure Timed)} :
    (suiteOutcome directory rs).status = 0 ↔ rs ≠ [] ∧ ∀ r ∈ rs, isPass r.2 = true := by
  unfold suiteOutcome
  by_cases hrs : rs = []
  · simp [hrs, Outcome.status]
  · have hlength : rs.length ≠ 0 := by simpa using hrs
    simp [hlength, Outcome.status, hrs]

theorem status_runOutcome {total : Nat} :
    (runOutcome total ts f).status = 0 ↔ f = none ∧ ∀ t ∈ ts, t.report.passed = true := by
  cases f with
  | some f => simp [runOutcome, Outcome.status]
  | none => simp [runOutcome, Outcome.status]

/-! ## Suites -/

theorem execute_suite (limit : Nat) {more : List String} (hrest : OnlyTime rest)
    (hoperands : operands rest = directory :: more) (hnames : h.list directory = .ok names) :
    let wait := rest.contains "--time"
    let read := manifestPaths directory names
    let o := suiteOutcome directory (read.map fun path => (path, runFile h limit wait path))
    execute h limit ("suite" :: rest) = o ∧
      (execute h.recording limit ("suite" :: rest)).run [] = (o, read) := by
  intro wait read o
  have hrequest : Request.ofArguments ("suite" :: rest) = .ok (.suite (some directory), wait) := by
    rw [hrest.ofArguments_suite, hoperands, List.head?_cons]
  rw [execute, execute, hrequest]
  dsimp only
  rw [answer, answer, pure_bind, pure_bind]
  dsimp only
  constructor
  · rw [runDirectory_id hnames]
    rfl
  · rw [StateT.run_bind, runDirectory_recording hnames]
    rfl

theorem length_filter_isPass (hf : h.Faithful) :
    (paths.filter fun path => isPass (runFile h limit wait path)).length =
      paths.countP fun path => Passes h limit wait path := by
  rw [List.countP_eq_length_filter]
  congr 2
  funext path
  rw [Bool.eq_iff_iff, isPass_iff hf, decide_eq_true_eq]

theorem output_suiteOutcome (hf : h.Faithful) (hne : paths ≠ []) :
    (suiteOutcome directory (paths.map fun path => (path, runFile h limit wait path))).output =
      unlines ([s!"Running {paths.length} manifests from {directory}", ""] ++
        (List.zipWith entryLines paths (paths.map (runFile h limit wait))).flatten ++
        ["", s!"{paths.countP fun path => Passes h limit wait path}/{paths.length} passed"]) := by
  have hlines : (List.zipWith entryLines paths (paths.map (runFile h limit wait))).flatten =
      paths.flatMap fun path => entryLines path (runFile h limit wait path) := by
    rw [List.zipWith_map_right, List.zipWith_self, List.flatMap]
  have hlength : paths.length ≠ 0 := by simpa using hne
  rw [hlines, ← length_filter_isPass hf]
  simp [suiteOutcome, hlength, List.flatMap_map, List.filter_map, Function.comp_def]

/-- The suite of a directory with these names, answered by `o` after the texts at `read`. -/
structure AnswersSuite (h : Host Id) (limit : Nat) (wait : Bool) (directory : String)
    (names read : List String) (o : Outcome) : Prop where
  /-- a manifest is whatever has the ending after something else, be it a file or not -/
  mem_read : ∀ path, path ∈ read ↔ ∃ stem, stem ≠ "" ∧ stem ++ ".toml" ∈ names ∧
    path = joinPath directory (stem ++ ".toml")
  nodup_read : names.Nodup → read.Nodup
  ascending : read.Pairwise (· ≤ ·)
  /-- each result is that of its own text, and the counts are those of the results -/
  printed : read ≠ [] → ∃ xs : List (Except Failure Timed),
    List.Forall₂ (fun path x => x.map (·.report) = reportOf limit wait path (h.readText path))
      read xs ∧
    o.output = unlines ([s!"Running {read.length} manifests from {directory}", ""] ++
      (List.zipWith entryLines read xs).flatten ++
      ["", s!"{read.countP fun path => Passes h limit wait path}/{read.length} passed"])
  status_iff : o.status = 0 ↔ read ≠ [] ∧ ∀ path ∈ read, Passes h limit wait path

theorem answersSuite (hf : h.Faithful) (limit : Nat) (wait : Bool) (directory : String)
    (names : List String) : AnswersSuite h limit wait directory names
      (manifestPaths directory names) (suiteOutcome directory
        ((manifestPaths directory names).map fun path => (path, runFile h limit wait path))) where
  mem_read path := mem_manifestPaths
  nodup_read := nodup_manifestPaths directory
  ascending := pairwise_manifestPaths directory names
  printed := by
    generalize manifestPaths directory names = read
    intro hne
    refine ⟨read.map (runFile h limit wait), ?_, output_suiteOutcome hf hne⟩
    rw [List.forall₂_map_right_iff, List.forall₂_same]
    exact fun path _ => report_runFile hf
  status_iff := by
    generalize manifestPaths directory names = read
    rw [status_suiteOutcome]
    simp [isPass_iff hf]

/-! ## Runs of given manifests -/

/-- The runs of the manifests at these paths, answered by `o` after the texts at `read`. -/
structure AnswersRun (h : Host Id) (limit : Nat) (wait : Bool) (paths read : List String)
    (o : Outcome) : Prop where
  batch : ∃ ts f, Batch h limit wait paths read ts f ∧
    o.output = unlines (ts.flatMap reportLines) ∧ ∀ e, f = some e → o.error = some (.failure e)
  status_iff : o.status = 0 ↔ ∀ path ∈ paths, Passes h limit wait path

theorem execute_run (hf : h.Faithful) (limit : Nat) (hrest : OnlyTime rest)
    (hne : operands rest ≠ []) :
    ∃ read, (execute h.recording limit ("run" :: rest)).run [] =
        (execute h limit ("run" :: rest), read) ∧
      AnswersRun h limit (rest.contains "--time") (operands rest) read
        (execute h limit ("run" :: rest)) := by
  obtain ⟨read, ts, f, hts, hread, hbatch⟩ :=
    batch_runFiles hf limit (rest.contains "--time") (operands rest)
  have houtcome : execute h limit ("run" :: rest) = runOutcome (operands rest).length ts f := by
    rw [execute, hrest.ofArguments_run hne]
    dsimp only
    rw [answer, hts]
    rfl
  refine ⟨read, ?_, ?_⟩
  · rw [houtcome, execute, hrest.ofArguments_run hne]
    dsimp only
    rw [answer, StateT.run_bind, hread]
    rfl
  · rw [houtcome]
    refine ⟨⟨ts, f, hbatch, rfl, ?_⟩, ?_⟩
    · rintro e rfl
      rfl
    · rw [status_runOutcome, hbatch.forall_passes_iff]

/-! ## Both commands -/

/-- A kernel without instructions and one element, a zero, that is compared. -/
def idleKernel (expected : String) : String :=
  "uops = []\n\n[kernel]\nname = \"idle\"\n\n[[buffers]]\nname = \"out\"\n" ++
  "dtype = \"int32\"\nsize = 1\nexpect = [" ++ expected ++ "]\n"

/-- A manifest that passes, one that fails and one that does not load. -/
def mixedDirectory : Snapshot where
  files := [(["k", "a.toml"], idleKernel "0"), (["k", "b.toml"], idleKernel "1"),
    (["k", "c.toml"], "uops"), (["k", "notes.txt"], "")]
  environment := []
  userDirectory := none

/-- A manifest that passes, beside a directory with the ending of a manifest. -/
def besideDirectory : Snapshot where
  files := [(["k", "a.toml"], idleKernel "0"), (["k", "b.toml", "notes.txt"], "")]
  environment := []
  userDirectory := none

/-- The path leads to a file. -/
def isFileAt (s : Snapshot) (path : String) : Bool :=
  match s.locate path with
  | .ok place => s.isFile place
  | .error _ => false

end CommandLine

end Lockstep
