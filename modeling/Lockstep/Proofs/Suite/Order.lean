import Lockstep.Proofs.Outcome
import Lockstep.Proofs.Text.Parts
import Lockstep.Suite
import Mathlib.Data.List.Nodup
import Mathlib.Data.String.Basic

/-!
# The order of manifests

Which manifests are read, in which order, and what comes of each. A machine that keeps a list of
the texts it is asked for shows the order. What comes of a manifest is a function of its own
text, whatever comes of the others.
-/

namespace Lockstep

/-! ## Machines -/

namespace Host

/-- What is measured on the machine gives its own result. -/
structure Faithful (h : Host Id) : Prop where
  measure : ∀ {α : Type} (f : Unit → α), (h.measure f).1 = f ()

/-- The machine with a list of the paths of the texts it was asked for. -/
def recording (h : Host Id) : Host (StateM (List String)) where
  readText path := do
    modify (· ++ [path])
    return h.readText path
  list directory := return h.list directory
  lookup name := return h.lookup name
  userDirectory? := return h.userDirectory?
  measure f := return h.measure f

end Host

namespace Suite

variable {h : Host Id} {limit : Nat} {wait : Bool} {path : String} {paths asked : List String}

theorem map_during {α β : Type} (s : Stage) (x : Except Failure α) (f : α → β) :
    (during s x).map f = during s (x.map f) := by
  cases x <;> rfl

/-! ## One manifest -/

/-- The manifest at a path, from what its text is. -/
def manifestOf (path : String) : Except FileError String → Except Failure Manifest
  | .error e => .error (.during (.readManifest path) (.ofCause (.file e)))
  | .ok text =>
    match Manifest.parse? text with
    | some mf => .ok mf
    | none => .error (.during (.parseManifest path) (.ofCause .document))

/-- The report on the manifest at a path, from what its text is. -/
def reportOf (limit : Nat) (wait : Bool) (path : String) (text : Except FileError String) :
    Except Failure Report := do
  let mf ← manifestOf path text
  during (.kernel mf.name) (mf.run limit wait)

theorem readManifest_eq {m : Type → Type} [Monad m] [LawfulMonad m] (h : Host m) (path : String) :
    readManifest h path = manifestOf path <$> h.readText path := by
  rw [readManifest, map_eq_pure_bind]
  apply bind_congr
  intro text
  cases text with
  | error e => rfl
  | ok text =>
    dsimp only [manifestOf]
    cases Manifest.parse? text <;> rfl

theorem readManifest_id : readManifest h path = manifestOf path (h.readText path) :=
  readManifest_eq h path

theorem readManifest_recording : (readManifest h.recording path).run asked =
    (manifestOf path (h.readText path), asked ++ [path]) := by
  rw [readManifest_eq]
  rfl

theorem runFile_recording : (runFile h.recording limit wait path).run asked =
    (runFile h limit wait path, asked ++ [path]) := by
  rw [runFile, runFile, StateT.run_bind, readManifest_recording, readManifest_id]
  generalize manifestOf path (h.readText path) = x
  cases x with
  | error f => rfl
  | ok mf => rfl

theorem report_runFile (hf : h.Faithful) :
    (runFile h limit wait path).map (·.report) = reportOf limit wait path (h.readText path) := by
  rw [runFile, readManifest_id, reportOf]
  generalize manifestOf path (h.readText path) = x
  cases x with
  | error f => rfl
  | ok mf =>
    have hresult : (h.measure fun _ => mf.run limit wait).1 = mf.run limit wait := hf.measure _
    change (during (.kernel mf.name) ((h.measure fun _ => mf.run limit wait).1.map _)).map _ =
      during (.kernel mf.name) (mf.run limit wait)
    rw [hresult, map_during]
    generalize mf.run limit wait = r
    cases r <;> rfl

/-- The manifest at the path loads and runs. -/
def Runs (h : Host Id) (limit : Nat) (wait : Bool) (path : String) (r : Report) : Prop :=
  ∃ text mf, h.readText path = .ok text ∧ Manifest.parse? text = some mf ∧
    mf.run limit wait = .ok r

/-- The manifest at the path loads, runs and passes. -/
def Passes (h : Host Id) (limit : Nat) (wait : Bool) (path : String) : Prop :=
  ∃ r, Runs h limit wait path r ∧ r.passed = true

theorem manifestOf_eq_ok {text : Except FileError String} {mf : Manifest} :
    manifestOf path text = .ok mf ↔ ∃ s, text = .ok s ∧ Manifest.parse? s = some mf := by
  cases text with
  | error e => simp [manifestOf]
  | ok s => cases hs : Manifest.parse? s <;> simp [manifestOf, hs]

theorem reportOf_eq_ok {r : Report} :
    reportOf limit wait path (h.readText path) = .ok r ↔ Runs h limit wait path r := by
  rw [reportOf, bind_eq_ok]
  simp only [manifestOf_eq_ok, during, mapError_eq_ok]
  constructor
  · rintro ⟨mf, ⟨text, htext, hmf⟩, hrun⟩
    exact ⟨text, mf, htext, hmf, hrun⟩
  · rintro ⟨text, mf, htext, hmf, hrun⟩
    exact ⟨mf, ⟨text, htext, hmf⟩, hrun⟩

theorem passes_iff : (reportOf limit wait path (h.readText path)).toOption.any (·.passed) = true ↔
    Passes h limit wait path := by
  simp only [Passes, ← reportOf_eq_ok]
  cases reportOf limit wait path (h.readText path) with
  | error f => simp [Except.toOption]
  | ok r => simp [Except.toOption]

instance : Decidable (Passes h limit wait path) :=
  decidable_of_iff _ passes_iff

theorem Runs.passes_iff {r : Report} (hr : Runs h limit wait path r) :
    Passes h limit wait path ↔ r.passed = true := by
  constructor
  · rintro ⟨r', hr', hpassed⟩
    rw [← reportOf_eq_ok] at hr hr'
    cases hr.symm.trans hr'
    exact hpassed
  · intro hpassed
    exact ⟨r, hr, hpassed⟩

theorem not_passes_of_error {f : Failure}
    (hf : reportOf limit wait path (h.readText path) = .error f) :
    ¬ Passes h limit wait path := by
  rintro ⟨r, hr, -⟩
  rw [← reportOf_eq_ok, hf] at hr
  cases hr

/-! ## All manifests of a directory -/

/-- Unlike given manifests, those of a directory are all run, whatever comes of the earlier ones. -/
theorem runEach_recording : (runEach h.recording limit wait paths).run asked =
    (paths.map fun path => (path, runFile h limit wait path), asked ++ paths) := by
  induction paths generalizing asked with
  | nil =>
    rw [List.append_nil]
    rfl
  | cons path rest ih =>
    rw [runEach, StateT.run_bind, runFile_recording]
    change (runEach h.recording limit wait rest >>= fun rs =>
      pure ((path, runFile h limit wait path) :: rs)).run (asked ++ [path]) = _
    rw [StateT.run_bind, ih, List.append_assoc]
    rfl

theorem runEach_id : runEach h limit wait paths =
    paths.map fun path => (path, runFile h limit wait path) := by
  induction paths with
  | nil => rfl
  | cons path rest ih =>
    rw [runEach, ih]
    rfl

/-! ## Manifests up to the first that fails -/

/-- The manifests are run in order, all of them or those up to the first that fails; `read` are
the paths that are asked for. -/
inductive Batch (h : Host Id) (limit : Nat) (wait : Bool) (paths : List String) :
    (read : List String) → List Timed → Option Failure → Prop where
  | whole {ts : List Timed}
      (hran : List.Forall₂ (fun path t => Runs h limit wait path t.report) paths ts) :
      Batch h limit wait paths paths ts none
  | broken {ran rest : List String} {path : String} {ts : List Timed} {f : Failure}
      (hpaths : paths = ran ++ path :: rest)
      (hran : List.Forall₂ (fun path t => Runs h limit wait path t.report) ran ts)
      (hfails : reportOf limit wait path (h.readText path) = .error f) :
      Batch h limit wait paths (ran ++ [path]) ts (some f)

theorem Batch.cons {rest read : List String} {t : Timed} {ts : List Timed} {f : Option Failure}
    (ht : Runs h limit wait path t.report) (hb : Batch h limit wait rest read ts f) :
    Batch h limit wait (path :: rest) (path :: read) (t :: ts) f := by
  cases hb with
  | whole hran => exact .whole (.cons ht hran)
  | @broken ran rest' path' ts f hpaths hran hfails =>
    have hcons : path :: rest = (path :: ran) ++ path' :: rest' := by
      rw [hpaths, List.cons_append]
    exact .broken hcons (.cons ht hran) hfails

theorem forall_passes_iff {ts : List Timed}
    (hran : List.Forall₂ (fun path t => Runs h limit wait path t.report) paths ts) :
    (∀ path ∈ paths, Passes h limit wait path) ↔ ∀ t ∈ ts, t.report.passed = true := by
  induction hran with
  | nil => simp
  | cons ht _ ih => simp [ht.passes_iff, ih]

theorem Batch.forall_passes_iff {read : List String} {ts : List Timed} {f : Option Failure}
    (hb : Batch h limit wait paths read ts f) :
    (∀ path ∈ paths, Passes h limit wait path) ↔
      f = none ∧ ∀ t ∈ ts, t.report.passed = true := by
  cases hb with
  | whole hran => simp [Suite.forall_passes_iff hran]
  | @broken ran rest path _ _ hpaths hran hfails =>
    refine iff_of_false ?_ (by simp)
    intro hall
    have hmem : path ∈ paths := by simp [hpaths]
    exact not_passes_of_error hfails (hall path hmem)

theorem batch_runFiles (hf : h.Faithful) (limit : Nat) (wait : Bool) (paths : List String) :
    ∃ read ts f, runFiles h limit wait paths = (ts, f) ∧
      (∀ asked, (runFiles h.recording limit wait paths).run asked = ((ts, f), asked ++ read)) ∧
      Batch h limit wait paths read ts f := by
  -- the list asked for so far grows on the way in, and so it is not fixed in the induction
  induction paths with
  | nil =>
    refine ⟨[], [], none, rfl, ?_, .whole .nil⟩
    intro asked
    rw [List.append_nil]
    rfl
  | cons path rest ih =>
    obtain ⟨read, ts, f, hts, hread, hbatch⟩ := ih
    have hreport : (runFile h limit wait path).map (·.report) =
        reportOf limit wait path (h.readText path) := report_runFile hf
    rw [runFiles, runFiles]
    cases hx : runFile h limit wait path with
    | error e =>
      rw [hx] at hreport
      refine ⟨[path], [], some e, ?_, ?_, .broken rfl .nil hreport.symm⟩
      · rfl
      · intro asked
        rw [StateT.run_bind, runFile_recording, hx]
        rfl
    | ok t =>
      rw [hx] at hreport
      refine ⟨path :: read, t :: ts, f, ?_, ?_, hbatch.cons (reportOf_eq_ok.mp hreport.symm)⟩
      · rw [hts]
        rfl
      · intro asked
        rw [StateT.run_bind, runFile_recording, hx]
        change (runFiles h.recording limit wait rest >>= fun r =>
          pure (t :: r.1, r.2)).run (asked ++ [path]) = _
        rw [StateT.run_bind, hread, List.append_assoc]
        rfl

/-! ## Manifests among the names of a directory -/

theorem isManifestName_iff {name : String} :
    isManifestName name = true ↔ ∃ stem, stem ≠ "" ∧ name = stem ++ ".toml" := by
  have hending : ".toml".toList = '.' :: ['t', 'o', 'm', 'l'] := rfl
  unfold isManifestName
  constructor
  · intro h
    split at h
    next stem ending hsplit =>
      obtain ⟨hname, -⟩ := of_splitLast? hsplit
      simp only [Bool.and_eq_true, Bool.not_eq_true', List.isEmpty_eq_false_iff, beq_iff_eq] at h
      obtain ⟨hstem, rfl⟩ := h
      refine ⟨String.ofList stem, by simpa using hstem, ?_⟩
      rw [← String.toList_inj, String.toList_append, String.toList_ofList, hname, hending]
    next => cases h
  · rintro ⟨stem, hstem, rfl⟩
    rw [String.toList_append, hending, splitLast?_append (by decide)]
    simpa using hstem

theorem mem_manifestNames {name : String} {names : List String} :
    name ∈ manifestNames names ↔ name ∈ names ∧ isManifestName name = true := by
  rw [manifestNames, List.mem_mergeSort, List.mem_filter]

theorem nodup_manifestNames {names : List String} (h : names.Nodup) :
    (manifestNames names).Nodup := by
  rw [manifestNames, (List.mergeSort_perm _ _).nodup_iff]
  exact h.filter _

theorem pairwise_manifestNames (names : List String) :
    (manifestNames names).Pairwise (· ≤ ·) := by
  have htrans (a b c : String) (hab : decide (a ≤ b) = true) (hbc : decide (b ≤ c) = true) :
      decide (a ≤ c) = true := by
    rw [decide_eq_true_eq] at *
    exact le_trans hab hbc
  have htotal (a b : String) : (decide (a ≤ b) || decide (b ≤ a)) = true := by
    simpa using le_total a b
  have hsorted := List.pairwise_mergeSort htrans htotal (names.filter isManifestName)
  rw [manifestNames]
  apply hsorted.imp
  intro a b h
  exact of_decide_eq_true h

/-- The names of one directory get the same text in front. -/
theorem exists_joinPath (directory : String) :
    ∃ front, ∀ name, joinPath directory name = front ++ name := by
  unfold joinPath
  split
  · exact ⟨"", fun name => by simp⟩
  · exact ⟨directory, fun name => rfl⟩
  · exact ⟨directory ++ "/", fun name => rfl⟩

theorem append_le_append (front : String) {a b : String} (h : a ≤ b) :
    front ++ a ≤ front ++ b := by
  have hlist : ¬ front.toList ++ b.toList < front.toList ++ a.toList := List.append_left_le h
  rw [← String.toList_append, ← String.toList_append] at hlist
  exact hlist

/-- The paths of the manifests of a directory, in the order in which they are run. -/
def manifestPaths (directory : String) (names : List String) : List String :=
  (manifestNames names).map (joinPath directory)

theorem mem_manifestPaths {directory : String} {names : List String} :
    path ∈ manifestPaths directory names ↔ ∃ stem, stem ≠ "" ∧ stem ++ ".toml" ∈ names ∧
      path = joinPath directory (stem ++ ".toml") := by
  simp only [manifestPaths, List.mem_map, mem_manifestNames, isManifestName_iff]
  constructor
  · rintro ⟨_, ⟨hname, stem, hstem, rfl⟩, rfl⟩
    exact ⟨stem, hstem, hname, rfl⟩
  · rintro ⟨stem, hstem, hname, rfl⟩
    exact ⟨_, ⟨hname, stem, hstem, rfl⟩, rfl⟩

theorem joinPath_injective (directory : String) : Function.Injective (joinPath directory) := by
  obtain ⟨front, hfront⟩ := exists_joinPath directory
  intro a b hab
  rw [hfront, hfront, ← String.toList_inj, String.toList_append, String.toList_append] at hab
  exact String.toList_inj.mp (List.append_cancel_left hab)

theorem nodup_manifestPaths (directory : String) {names : List String} (h : names.Nodup) :
    (manifestPaths directory names).Nodup :=
  List.Nodup.map (joinPath_injective directory) (nodup_manifestNames h)

theorem pairwise_manifestPaths (directory : String) (names : List String) :
    (manifestPaths directory names).Pairwise (· ≤ ·) := by
  obtain ⟨front, hfront⟩ := exists_joinPath directory
  apply (pairwise_manifestNames names).map
  intro a b hab
  rw [hfront, hfront]
  exact append_le_append front hab

/-- The manifests of a directory are read once each, in order, and each result is that of its
manifest alone. -/
theorem runDirectory_recording {directory : String} {names : List String}
    (hnames : h.list directory = .ok names) :
    (runDirectory h.recording limit wait directory).run asked =
      (.ok ((manifestPaths directory names).map fun path => (path, runFile h limit wait path)),
        asked ++ manifestPaths directory names) := by
  have hlist : h.recording.list directory = pure (.ok names) := by
    change pure (h.list directory) = _
    rw [hnames]
  rw [runDirectory, hlist, pure_bind]
  dsimp only
  rw [StateT.run_bind, runEach_recording]
  rfl

theorem runDirectory_id {directory : String} {names : List String}
    (hnames : h.list directory = .ok names) : runDirectory h limit wait directory =
      .ok ((manifestPaths directory names).map fun path => (path, runFile h limit wait path)) := by
  have hlist : h.list directory = pure (.ok names) := hnames
  rw [runDirectory, hlist, pure_bind]
  dsimp only
  rw [runEach_id]
  rfl

theorem runDirectory_eq_ok {directory : String} {xs : List (String × Except Failure Timed)} :
    runDirectory h limit wait directory = .ok xs ↔ ∃ names, h.list directory = .ok names ∧
      xs = (manifestPaths directory names).map fun path => (path, runFile h limit wait path) := by
  constructor
  · intro hxs
    cases hlist : h.list directory with
    | error e =>
      have hpure : h.list directory = pure (.error e) := hlist
      rw [runDirectory, hpure, pure_bind] at hxs
      cases hxs
    | ok names =>
      rw [runDirectory_id hlist] at hxs
      cases hxs
      exact ⟨names, rfl, rfl⟩
  · rintro ⟨names, hnames, rfl⟩
    exact runDirectory_id hnames

/-- Each manifest of a directory has its result. -/
theorem exists_mem_runDirectory (limit : Nat) (wait : Bool) {directory : String}
    {names : List String} (hnames : h.list directory = .ok names)
    (hpath : path ∈ manifestPaths directory names) :
    ∃ xs x, runDirectory h limit wait directory = .ok xs ∧ (path, x) ∈ xs :=
  ⟨_, runFile h limit wait path, runDirectory_id hnames,
    List.mem_map.mpr ⟨path, hpath, rfl⟩⟩

theorem report_of_mem_runDirectory {directory : String}
    {xs : List (String × Except Failure Timed)} {x : Except Failure Timed} (hf : h.Faithful)
    (hxs : runDirectory h limit wait directory = .ok xs) (hx : (path, x) ∈ xs) :
    x.map (·.report) = reportOf limit wait path (h.readText path) := by
  obtain ⟨names, -, rfl⟩ := runDirectory_eq_ok.mp hxs
  obtain ⟨_, -, hpair⟩ := List.mem_map.mp hx
  cases hpair
  exact report_runFile hf

/-- What comes of a manifest in a suite does not depend on the texts of the others. -/
theorem report_congr {h' : Host Id} {directory directory' : String}
    {xs xs' : List (String × Except Failure Timed)} {x x' : Except Failure Timed}
    (hf : h.Faithful) (hf' : h'.Faithful) (htext : h.readText path = h'.readText path)
    (hxs : runDirectory h limit wait directory = .ok xs)
    (hxs' : runDirectory h' limit wait directory' = .ok xs')
    (hx : (path, x) ∈ xs) (hx' : (path, x') ∈ xs') : x.map (·.report) = x'.map (·.report) := by
  rw [report_of_mem_runDirectory hf hxs hx, report_of_mem_runDirectory hf' hxs' hx', htext]

end Suite

end Lockstep
