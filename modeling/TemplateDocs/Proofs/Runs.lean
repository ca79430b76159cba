import Mathlib
import TemplateDocs.Proofs.Findings
import TemplateDocs.Proofs.Pool
import TemplateDocs.Run

/-!
# Findings of a run, file by file

Files are read one after the other or by several workers, and their findings are put together in the
order of the files. Names are compared only then: a document whose name an earlier document has is
reported once, with the file of the first document of that name.
-/
namespace TemplateDocs

open Files (Path Tree)

/-! ### Names that are taken -/

/-- The reports of documents whose names stand on documents before them, where those of `earlier`
come before all of `docs`. Each names the file and the line of the document, and the file of the first
document of that name. -/
def repeatedNames (earlier docs : List Document) : List Diagnostic :=
  (List.range docs.length).filterMap fun k =>
    docs[k]?.bind fun d =>
      ((earlier ++ docs.take k).find? fun e => e.name = d.name).map fun first => {
        file := d.file
        block := some d.name
        line := d.line
        problem := .duplicateName d.name first.file }

theorem repeatedNames_nil (earlier : List Document) : repeatedNames earlier [] = [] := rfl

theorem repeatedNames_cons (earlier : List Document) (d : Document) (docs : List Document) :
    repeatedNames earlier (d :: docs) =
      ((earlier.find? fun e => e.name = d.name).map fun first =>
        ⟨d.file, some d.name, d.line, .duplicateName d.name first.file⟩).toList ++
        repeatedNames (earlier ++ [d]) docs := by
  rw [repeatedNames, List.length_cons, List.range_succ_eq_map, List.filterMap_cons,
    List.filterMap_map]
  simp only [List.getElem?_cons_zero, Option.bind_some, List.take_zero, List.append_nil]
  have hrest : (List.range docs.length).filterMap ((fun k => (d :: docs)[k]?.bind fun d' =>
      ((earlier ++ (d :: docs).take k).find? fun e => e.name = d'.name).map fun first =>
        (⟨d'.file, some d'.name, d'.line, .duplicateName d'.name first.file⟩ : Diagnostic)) ∘ Nat.succ) =
      repeatedNames (earlier ++ [d]) docs := by
    simp [repeatedNames, Function.comp_def]
  rw [hrest]
  cases earlier.find? fun e => e.name = d.name <;> rfl

theorem repeatedNames_append (earlier docs docs' : List Document) :
    repeatedNames earlier (docs ++ docs') =
      repeatedNames earlier docs ++ repeatedNames (earlier ++ docs) docs' := by
  induction docs generalizing earlier with
  | nil => simp [repeatedNames_nil]
  | cons d docs ih =>
    rw [List.cons_append, repeatedNames_cons, repeatedNames_cons, ih]
    simp

def Problem.isDuplicateName : Problem → Bool
  | .duplicateName _ _ => true
  | _ => false

theorem isDuplicateName_of_mem_repeatedNames {earlier docs : List Document} {g : Diagnostic}
    (h : g ∈ repeatedNames earlier docs) : g.problem.isDuplicateName = true := by
  obtain ⟨k, -, hk⟩ := List.mem_filterMap.mp h
  obtain ⟨d, -, hd⟩ := Option.bind_eq_some_iff.mp hk
  obtain ⟨first, -, rfl⟩ := Option.map_eq_some_iff.mp hd
  rfl

/-- Of the documents that are added, those with new names are not reported. -/
theorem repeatedNames_length (earlier docs : List Document) :
    (repeatedNames earlier docs).length + ((earlier ++ docs).map Document.name).toFinset.card =
      docs.length + (earlier.map Document.name).toFinset.card := by
  induction docs generalizing earlier with
  | nil => simp [repeatedNames_nil]
  | cons d docs ih =>
    have hrest := ih (earlier ++ [d])
    rw [List.append_assoc, List.singleton_append] at hrest
    rw [repeatedNames_cons, List.length_append, List.length_cons]
    have hcard : ((earlier ++ [d]).map Document.name).toFinset =
        insert d.name (earlier.map Document.name).toFinset := by
      ext name
      simp
    rw [hcard] at hrest
    cases hfind : earlier.find? fun e => e.name = d.name with
    | none =>
      have hnew : d.name ∉ (earlier.map Document.name).toFinset := by
        simpa using hfind
      rw [Finset.card_insert_of_notMem hnew] at hrest
      simp only [Option.map_none, Option.toList_none, List.length_nil]
      omega
    | some first =>
      have hold : d.name ∈ (earlier.map Document.name).toFinset := by
        have hname := List.find?_some hfind
        have hmem := List.mem_of_find?_eq_some hfind
        simp only [decide_eq_true_eq] at hname
        simpa using ⟨first, hmem, hname⟩
      rw [Finset.insert_eq_of_mem hold] at hrest
      simp only [Option.map_some, Option.toList_some, List.length_singleton]
      omega

namespace FirstFiles

/-- The names of the documents of `seen`, each with the file of the first one. -/
def Knows (names : FirstFiles) (seen : List Document) : Prop :=
  ∀ name, names.get? name = (seen.find? fun d => d.name = name).map Document.file

theorem knows_nil : Knows [] [] := fun _ => rfl

theorem Knows.add_new {names : FirstFiles} {seen : List Document} {d : Document}
    (h : Knows names seen) (hnew : names.get? d.name = none) :
    Knows ((d.name, d.file) :: names) (seen ++ [d]) := by
  intro name
  have hold := h d.name
  rw [hnew] at hold
  rw [List.find?_append, get?]
  by_cases hname : d.name = name
  · subst hname
    have : seen.find? (fun e => e.name = d.name) = none := by
      simpa using hold.symm
    simp [this]
  · simp [hname, h name]

theorem Knows.add_known {names : FirstFiles} {seen : List Document} {d : Document} {file : Text}
    (h : Knows names seen) (hknown : names.get? d.name = some file) : Knows names (seen ++ [d]) := by
  intro name
  have hold := h d.name
  rw [hknown] at hold
  rw [List.find?_append, h name]
  by_cases hname : d.name = name
  · subst hname
    obtain ⟨first, hfirst, -⟩ := Option.map_eq_some_iff.mp hold.symm
    simp [hfirst]
  · simp [hname]

/-- Entering documents reports those whose names are taken, and knows all of them afterwards. -/
theorem Knows.register {names : FirstFiles} {seen : List Document} (h : Knows names seen)
    (docs : List Document) :
    (names.register docs).1 = repeatedNames seen docs ∧
      Knows (names.register docs).2 (seen ++ docs) := by
  induction docs generalizing names seen with
  | nil => exact ⟨rfl, by simpa [FirstFiles.register] using h⟩
  | cons d docs ih =>
    rw [repeatedNames_cons, FirstFiles.register]
    cases hd : names.get? d.name with
    | none =>
      obtain ⟨hreports, hknows⟩ := ih (h.add_new hd)
      have hfirst : seen.find? (fun e => e.name = d.name) = none := by
        have := h d.name
        rw [hd] at this
        simpa using this.symm
      refine ⟨by simpa [hfirst] using hreports, ?_⟩
      simpa using hknows
    | some file =>
      obtain ⟨hreports, hknows⟩ := ih (h.add_known hd)
      obtain ⟨first, hfirst, rfl⟩ := Option.map_eq_some_iff.mp ((h d.name).symm.trans hd)
      refine ⟨by simpa [hfirst, Document.duplicate] using hreports, ?_⟩
      simpa using hknows

end FirstFiles

/-! ### Putting files together -/

namespace Findings

/-- The diagnostics of each file and after them the reports of its names; the documents of `earlier`
come before all files. -/
def fileByFile (earlier : List Document) (parts : List Findings) : List Diagnostic :=
  parts.zipIdx.flatMap fun (part, i) =>
    part.diagnostics ++
      repeatedNames (earlier ++ (parts.take i).flatMap documents) part.documents

theorem fileByFile_cons (earlier : List Document) (part : Findings) (parts : List Findings) :
    fileByFile earlier (part :: parts) =
      part.diagnostics ++ repeatedNames earlier part.documents ++
        fileByFile (earlier ++ part.documents) parts := by
  rw [fileByFile, List.zipIdx_cons', List.flatMap_cons, List.flatMap_map]
  simp [fileByFile]

theorem combine_eq_ok {names : FirstFiles} {earlier : List Document}
    {results : List (Except Error Findings)} {found : Findings} (hknows : names.Knows earlier)
    (h : combine names results = .ok found) :
    ∃ parts : List Findings, results = parts.map .ok ∧
      found.documents = parts.flatMap documents ∧ found.diagnostics = fileByFile earlier parts := by
  induction results generalizing names earlier found with
  | nil =>
    cases h
    exact ⟨[], rfl, rfl, rfl⟩
  | cons result results ih =>
    cases result with
    | error e => cases h
    | ok part =>
      obtain ⟨hreports, hafter⟩ := hknows.register part.documents
      rw [combine] at h
      dsimp only at h
      cases hrest : combine (names.register part.documents).2 results with
      | error e => simp [hrest, Except.map] at h
      | ok others =>
        obtain ⟨parts, rfl, hdocuments, hdiagnostics⟩ := ih hafter hrest
        simp only [hrest, Except.map, Except.ok.injEq] at h
        subst h
        refine ⟨part :: parts, rfl, ?_, ?_⟩
        · simp [hdocuments]
        · simp [fileByFile_cons, hdiagnostics, hreports]

theorem combine_eq_error_iff {names : FirstFiles} {results : List (Except Error Findings)}
    {e : Error} : combine names results = .error e ↔
      ∃ before after, results = before ++ .error e :: after ∧ ∀ r ∈ before, ∃ part, r = .ok part := by
  induction results generalizing names with
  | nil => simp [combine]
  | cons result results ih =>
    cases result with
    | error e' =>
      rw [combine]
      constructor
      · intro h
        cases h
        exact ⟨[], results, rfl, by simp⟩
      · rintro ⟨before, after, hsplit, hbefore⟩
        cases before with
        | nil =>
          cases hsplit
          rfl
        | cons first before =>
          cases hsplit
          obtain ⟨part, hpart⟩ := hbefore _ List.mem_cons_self
          cases hpart
    | ok part =>
      have hmap : combine names (.ok part :: results) = .error e ↔
          combine (names.register part.documents).2 results = .error e := by
        rw [combine]
        dsimp only
        cases combine (names.register part.documents).2 results <;> simp [Except.map]
      rw [hmap, ih]
      constructor
      · rintro ⟨before, after, rfl, hbefore⟩
        exact ⟨.ok part :: before, after, rfl, by simpa using hbefore⟩
      · rintro ⟨before, after, hsplit, hbefore⟩
        cases before with
        | nil => cases hsplit
        | cons first before =>
          cases hsplit
          exact ⟨before, after, rfl, fun r hr => hbefore r (List.mem_cons_of_mem _ hr)⟩

/-- Where no file reports a name itself, the reports of a run are those of all its documents. -/
theorem filter_fileByFile {parts : List Findings}
    (h : ∀ part ∈ parts, ∀ g ∈ part.diagnostics, g.problem.isDuplicateName = false)
    (earlier : List Document) :
    (fileByFile earlier parts).filter (fun g => g.problem.isDuplicateName) =
      repeatedNames earlier (parts.flatMap documents) := by
  induction parts generalizing earlier with
  | nil => rfl
  | cons part parts ih =>
    have hown : part.diagnostics.filter (fun g => g.problem.isDuplicateName) = [] := by
      apply List.filter_eq_nil_iff.mpr
      intro g hg
      simp [h part List.mem_cons_self g hg]
    have hreports : (repeatedNames earlier part.documents).filter
        (fun g => g.problem.isDuplicateName) = repeatedNames earlier part.documents :=
      List.filter_eq_self.mpr fun g hg => isDuplicateName_of_mem_repeatedNames hg
    rw [fileByFile_cons, List.filter_append, List.filter_append, hown, hreports,
      ih (fun p hp => h p (List.mem_cons_of_mem _ hp)), List.flatMap_cons, repeatedNames_append]
    rfl

end Findings

/-! ### One file -/

namespace Setting

variable {s : Setting} {b : Block} {part found : Findings}

theorem generateBlock_problems {m : Metadata} (h : s.generateBlock b m = .ok part) :
    (∀ d ∈ part.documents, d.file = s.file) ∧
      ∀ g ∈ part.diagnostics, g.problem.isDuplicateName = false := by
  unfold generateBlock at h
  extract_lets assembly render problems at h
  cases hd : Document.ofBlock? s.file b m render with
  | none => simp [hd] at h
  | some document =>
    rw [hd] at h
    cases h
    refine ⟨?_, ?_⟩
    · intro d hmem
      unfold Document.ofBlock? at hd
      split_ifs at hd
      cases hd
      dsimp only at hmem
      split_ifs at hmem
      · cases hmem
      · rw [List.mem_singleton.mp hmem]
    · intro g hg
      obtain ⟨problem, hproblem, rfl⟩ := List.mem_map.mp hg
      simp only [problems, metadataProblems, renderProblems, List.mem_append, List.mem_map] at hproblem
      rcases hproblem with ((⟨_, _, rfl⟩ | hcapture) | ⟨_, _, rfl⟩) | ⟨_, _, rfl⟩
      · rfl
      · split at hcapture
        · cases hcapture
        · rw [List.mem_singleton.mp hcapture]
          rfl
      · rfl
      · rfl

theorem generateBlocks_problems {blocks : List Block} (h : s.generateBlocks blocks = .ok found) :
    (∀ d ∈ found.documents, d.file = s.file) ∧
      ∀ g ∈ found.diagnostics, g.problem.isDuplicateName = false := by
  refine generateBlocks_induction (by simp) ?_ ?_ (fun b m part _ => generateBlock_problems) h
  · rintro a b ⟨ha, hga⟩ ⟨hb, hgb⟩
    simp only [Findings.append_documents, Findings.append_diagnostics, List.mem_append]
    exact ⟨fun d hd => hd.elim (ha d) (hb d), fun g hg => hg.elim (hga g) (hgb g)⟩
  · simp [Problem.isDuplicateName]

/-- With an engine that never asks to stop, no template does. -/
theorem generateBlocks_interrupted (hengine : ∀ source, s.engine.interrupts source = false)
    {blocks : List Block} (h : s.generateBlocks blocks = .ok found) : found.interrupted = false := by
  refine generateBlocks_induction (P := fun f => f.interrupted = false) rfl ?_ (fun _ _ => rfl) ?_ h
  · intro a b ha hb
    change (a.interrupted || b.interrupted) = false
    rw [ha, hb, Bool.or_false]
  · intro b m part _ hpart
    unfold generateBlock at hpart
    dsimp only at hpart
    split at hpart
    · cases hpart
    · cases hpart
      simp [hengine]

end Setting

namespace Options

variable {o : Options} {tree : Tree} {engine : Engine} {path : Path} {part : Findings}

theorem generateFile_cases (h : o.generateFile tree engine path = .ok part) :
    (∃ size, part =
      { diagnostics := [⟨Path.relativeTo o.root path, none, 0, .fileTooLarge size o.maxFileSize⟩] }) ∨
    ∃ source, generateSource engine o.keyword o.locals (Path.relativeTo o.root path) source =
      .ok part := by
  unfold generateFile at h
  cases hsize : tree.size path with
  | error fault => simp [hsize, Except.mapError, bind, Except.bind] at h
  | ok size =>
    simp only [hsize, Except.mapError, bind, Except.bind] at h
    split_ifs at h with hlarge
    · cases h
      exact .inl ⟨size, rfl⟩
    · cases hread : tree.readText path with
      | error fault => simp [hread] at h
      | ok source =>
        simp only [hread] at h
        cases hsource : generateSource engine o.keyword o.locals (Path.relativeTo o.root path) source with
        | error missing => simp [hsource] at h
        | ok found =>
          simp only [hsource, Except.ok.injEq] at h
          exact .inr ⟨source, h ▸ hsource⟩

/-- The documents of a file come in the order of their markers and name the file, and a file does not
report repeated names. -/
theorem generateFile_ok (h : o.generateFile tree engine path = .ok part) :
    (part.documents.Pairwise fun d d' => d.line < d'.line) ∧
    (∀ d ∈ part.documents, d.file = Path.relativeTo o.root path) ∧
    ∀ g ∈ part.diagnostics, g.problem.isDuplicateName = false := by
  rcases generateFile_cases h with ⟨size, rfl⟩ | ⟨source, hsource⟩
  · simp [Problem.isDuplicateName]
  · refine ⟨?_, Setting.generateBlocks_problems hsource⟩
    obtain ⟨parts, hparts, hdocuments, -⟩ := Setting.generateBlocks_eq_ok hsource
    rw [hdocuments]
    exact Setting.Parts.documents_lines hparts (Block.extractFrom_increasing _ 1 _)

/-! ### Runs -/

/-- What becomes of one file while nothing changes whether the run is to stop. -/
def processFile (o : Options) (tree : Tree) (engine : Engine) (path : Path) : Except Error Findings :=
  if o.cancelled then .error .cancelled else o.generateFile tree engine path

/-- No file of the run asks to stop it. -/
def Undisturbed (o : Options) (tree : Tree) (engine : Engine) (paths : List Path) : Prop :=
  ∀ path ∈ paths, ∀ found, o.processFile tree engine path = .ok found → found.interrupted = false

theorem undisturbed_of_engine (hengine : ∀ source, engine.interrupts source = false)
    (paths : List Path) : o.Undisturbed tree engine paths := by
  intro path _ found h
  unfold processFile at h
  split_ifs at h
  rcases generateFile_cases h with ⟨size, rfl⟩ | ⟨source, hsource⟩
  · rfl
  · exact Setting.generateBlocks_interrupted hengine hsource

theorem perFile_eq_map {paths : List Path} (h : o.Undisturbed tree engine paths) :
    o.perFile tree engine o.cancelled paths = paths.map (o.processFile tree engine) := by
  induction paths with
  | nil => cases hcancelled : o.cancelled <;> rfl
  | cons path rest ih =>
    have hrest := ih fun p hp => h p (List.mem_cons_of_mem _ hp)
    have hpath := h path List.mem_cons_self
    rw [List.map_cons, ← hrest]
    unfold processFile at hpath ⊢
    cases hcancelled : o.cancelled with
    | true => rfl
    | false =>
      rw [hcancelled] at hpath
      simp only [perFile, Bool.false_eq_true, if_false]
      cases hfile : o.generateFile tree engine path with
      | error e => rfl
      | ok found =>
        have := hpath found hfile
        simp [this]

/-- The workers of a run can be started. Only a run with several files that may be read at a time has
workers to start. -/
def PoolStarts (o : Options) (paths : List Path) : Prop :=
  1 < o.jobs → 1 < paths.length → o.poolFault? (min o.jobs paths.length) = none

/-- What the reading of files can come to. One worker reads them in order; several workers have to be
started and then share the files in any way. -/
inductive Yields (o : Options) (tree : Tree) (engine : Engine) (paths : List Path) :
    Except Error (List (Except Error Findings)) → Prop
  | alone (h : o.jobs ≤ 1 ∨ paths.length ≤ 1) :
      Yields o tree engine paths (.ok (o.perFile tree engine o.cancelled paths))
  | unstarted {reason : Text} (hjobs : 1 < o.jobs) (hpaths : 1 < paths.length)
      (hpool : o.poolFault? (min o.jobs paths.length) = some reason) :
      Yields o tree engine paths (.error (.threadPool reason))
  | shared {s : Pool (Except Error Findings)} {results : List (Except Error Findings)}
      (hjobs : 1 < o.jobs) (hpaths : 1 < paths.length)
      (hpool : o.poolFault? (min o.jobs paths.length) = none)
      (hrun : Pool.Run (min o.jobs paths.length) (o.processFile tree engine) paths
        (.initial paths.length) s)
      (hdone : s.Done) (hresults : s.results = results.map some) :
      Yields o tree engine paths (.ok results)

theorem startFault?_of_alone {paths : List Path} (h : o.jobs ≤ 1 ∨ paths.length ≤ 1) :
    o.startFault? paths = none := by
  have hworkers : o.workers paths = 1 := by
    unfold workers
    omega
  rw [startFault?, if_pos hworkers]

theorem startFault?_of_several {paths : List Path} (hjobs : 1 < o.jobs) (hpaths : 1 < paths.length) :
    o.startFault? paths = o.poolFault? (min o.jobs paths.length) := by
  have hworkers : o.workers paths = min o.jobs paths.length := by
    unfold workers
    omega
  rw [startFault?, hworkers, if_neg (by omega)]

theorem poolStarts_iff {paths : List Path} : o.PoolStarts paths ↔ o.startFault? paths = none := by
  unfold PoolStarts
  by_cases h : 1 < o.jobs ∧ 1 < paths.length
  · simp [startFault?_of_several h.1 h.2, h.1, h.2]
  · rw [startFault?_of_alone (by omega)]
    exact iff_of_true (fun hjobs hpaths => absurd ⟨hjobs, hpaths⟩ h) rfl

theorem generateFiles_of_starts {paths : List Path} (h : o.PoolStarts paths) :
    o.generateFiles tree engine paths =
      Findings.combine [] (o.perFile tree engine o.cancelled paths) := by
  simp only [generateFiles, poolStarts_iff.mp h]

theorem generateFiles_of_fault {paths : List Path} {reason : Text} (hjobs : 1 < o.jobs)
    (hpaths : 1 < paths.length) (hpool : o.poolFault? (min o.jobs paths.length) = some reason) :
    o.generateFiles tree engine paths = .error (.threadPool reason) := by
  simp only [generateFiles, startFault?_of_several hjobs hpaths, hpool]

/-- Shared in whatever way, the files come to what they come to one by one. -/
theorem shared_results {paths : List Path} (h : o.Undisturbed tree engine paths) {size : Nat}
    {s : Pool (Except Error Findings)} {results : List (Except Error Findings)}
    (hrun : Pool.Run size (o.processFile tree engine) paths (.initial paths.length) s) (hdone : s.Done)
    (hresults : s.results = results.map some) : results = o.perFile tree engine o.cancelled paths := by
  have hsome : Function.Injective (List.map (some : Except Error Findings → _)) :=
    List.map_injective_iff.mpr (Option.some_injective _)
  apply hsome
  rw [← hresults, hrun.results_eq hdone, perFile_eq_map h, List.map_map]
  rfl

theorem exists_yields {paths : List Path} (h : o.Undisturbed tree engine paths) :
    ∃ r, o.Yields tree engine paths r := by
  by_cases hseveral : 1 < o.jobs ∧ 1 < paths.length
  · obtain ⟨hjobs, hpaths⟩ := hseveral
    cases hpool : o.poolFault? (min o.jobs paths.length) with
    | some reason => exact ⟨_, .unstarted hjobs hpaths hpool⟩
    | none =>
      have hworkers : 0 < min o.jobs paths.length := by omega
      obtain ⟨s, hrun, hdone⟩ := @Pool.exists_done _ _ _ (o.processFile tree engine) paths hworkers
        (List.range paths.length) (fun i hi => List.mem_range.mp hi) (List.replicate paths.length none)
      refine ⟨.ok (o.perFile tree engine o.cancelled paths), .shared hjobs hpaths hpool hrun hdone ?_⟩
      rw [Pool.Run.results_eq hrun hdone, perFile_eq_map h, List.map_map]
      rfl
  · exact ⟨_, .alone (by omega)⟩

/-- Whatever the reading comes to, the run makes its findings of it. -/
theorem Yields.combine_eq {paths : List Path} (h : o.Undisturbed tree engine paths)
    {r : Except Error (List (Except Error Findings))} (hr : o.Yields tree engine paths r) :
    r.bind (Findings.combine []) = o.generateFiles tree engine paths := by
  cases hr with
  | alone hsingle =>
    exact (generateFiles_of_starts (poolStarts_iff.mpr (startFault?_of_alone hsingle))).symm
  | unstarted hjobs hpaths hpool => exact (generateFiles_of_fault hjobs hpaths hpool).symm
  | shared hjobs hpaths hpool hrun hdone hresults =>
    obtain rfl := shared_results h hrun hdone hresults
    exact (generateFiles_of_starts fun _ _ => hpool).symm

/-- A run whose workers can be started fails exactly as the first file that fails. -/
theorem generateFiles_eq_error_iff {paths : List Path} (h : o.Undisturbed tree engine paths)
    (hstarts : o.PoolStarts paths) {e : Error} : o.generateFiles tree engine paths = .error e ↔
      ∃ before path after, paths = before ++ path :: after ∧
        (∀ p ∈ before, ∃ found, o.processFile tree engine p = .ok found) ∧
        o.processFile tree engine path = .error e := by
  rw [generateFiles_of_starts hstarts, perFile_eq_map h, Findings.combine_eq_error_iff]
  constructor
  · rintro ⟨before, after, hsplit, hbefore⟩
    obtain ⟨front, back, rfl, rfl, hback⟩ := List.map_eq_append_iff.mp hsplit
    obtain ⟨path, rest, rfl, hpath, -⟩ := List.map_eq_cons_iff.mp hback
    exact ⟨front, path, rest, rfl, fun p hp => hbefore _ (List.mem_map_of_mem hp), hpath⟩
  · rintro ⟨before, path, after, rfl, hbefore, hpath⟩
    refine ⟨before.map (o.processFile tree engine), after.map (o.processFile tree engine), ?_, ?_⟩
    · rw [List.map_append, List.map_cons, hpath]
    · intro r hr
      obtain ⟨p, hp, rfl⟩ := List.mem_map.mp hr
      exact hbefore p hp

theorem generateFile_of_processFile (h : o.processFile tree engine path = .ok part) :
    o.generateFile tree engine path = .ok part := by
  unfold processFile at h
  split_ifs at h
  exact h

/-- However its files are shared among workers, a run comes to the same. If its workers cannot be
started it fails with what the system says. Otherwise it fails with the error of the first file that
fails, or else has the documents of all files in order, and after the diagnostics of each file one
report for each of its documents whose name an earlier document of the run has. -/
theorem generateFiles_accounts_for_files {paths : List Path} (h : o.Undisturbed tree engine paths) :
    (∃ r, o.Yields tree engine paths r) ∧
    (∀ r, o.Yields tree engine paths r →
      r.bind (Findings.combine []) = o.generateFiles tree engine paths) ∧
    (∀ reason, 1 < o.jobs → 1 < paths.length →
      o.poolFault? (min o.jobs paths.length) = some reason →
      o.generateFiles tree engine paths = .error (.threadPool reason)) ∧
    (o.PoolStarts paths →
      (∀ e, o.generateFiles tree engine paths = .error e ↔
        ∃ before path after, paths = before ++ path :: after ∧
          (∀ p ∈ before, ∃ found, o.processFile tree engine p = .ok found) ∧
          o.processFile tree engine path = .error e) ∧
      ∀ found, o.generateFiles tree engine paths = .ok found →
        (∃ parts, List.Forall₂ (fun path part => o.generateFile tree engine path = .ok part ∧
            (part.documents.Pairwise fun d d' => d.line < d'.line) ∧
            ∀ d ∈ part.documents, d.file = Path.relativeTo o.root path) paths parts ∧
          found.documents = parts.flatMap Findings.documents ∧
          found.diagnostics = Findings.fileByFile [] parts) ∧
        (found.diagnostics.filter fun g => g.problem.isDuplicateName).length +
          (found.documents.map Document.name).toFinset.card = found.documents.length) := by
  refine ⟨exists_yields h, fun r hr => hr.combine_eq h,
    fun reason hjobs hpaths hpool => generateFiles_of_fault hjobs hpaths hpool, ?_⟩
  intro hstarts
  refine ⟨fun e => generateFiles_eq_error_iff h hstarts, ?_⟩
  intro found hfound
  rw [generateFiles_of_starts hstarts, perFile_eq_map h] at hfound
  obtain ⟨parts, hparts, hdocuments, hdiagnostics⟩ :=
    Findings.combine_eq_ok FirstFiles.knows_nil hfound
  refine ⟨⟨parts, ?_, hdocuments, hdiagnostics⟩, ?_⟩
  · have hall : List.Forall₂ Eq (paths.map (o.processFile tree engine)) (parts.map .ok) := by
      rw [List.forall₂_eq_eq_eq, hparts]
    rw [List.forall₂_map_left_iff, List.forall₂_map_right_iff] at hall
    refine hall.imp fun path part hpart => ?_
    have hfile := generateFile_of_processFile hpart
    exact ⟨hfile, (generateFile_ok hfile).1, (generateFile_ok hfile).2.1⟩
  · have hown : ∀ part ∈ parts, ∀ g ∈ part.diagnostics, g.problem.isDuplicateName = false := by
      intro part hpart
      have hmem : .ok part ∈ paths.map (o.processFile tree engine) := by
        rw [hparts]
        exact List.mem_map_of_mem hpart
      obtain ⟨path, -, hpath⟩ := List.mem_map.mp hmem
      exact (generateFile_ok (generateFile_of_processFile hpath)).2.2
    have hcount := repeatedNames_length [] found.documents
    rw [hdiagnostics, Findings.filter_fileByFile hown, ← hdocuments]
    simpa using hcount

/-- An engine whose output is its source. -/
def echoEngine : Engine := { compile := fun source _ _ => .ok fun _ => .ok source }

/-- Two templates; the name `x` stands twice in the first and once in the second. -/
def sharedSources : List (Path × Text) := [
  (Path.of "/a.pug", "//- @pugdoc\n  name: x\np a\n//- @pugdoc\n  name: x\np b".toList),
  (Path.of "/b.pug", "//- @pugdoc\n  name: y\np c\n//- @pugdoc\n  name: x\np d".toList)]

def sharedTree : Tree where
  nodes := sharedSources.map fun (path, source) => ([path.tail], .file (Text.toBytes source))

theorem resolve_sharedTree {path : Path} {source : Text} (h : (path, source) ∈ sharedSources) :
    sharedTree.resolve path = .ok ([path.tail], .file (Text.toBytes source)) := by
  have hpath : ∀ p ∈ sharedSources, (p.1.any (· = 0) = false ∧ p.1.isEmpty = false ∧
      p.1.length < Tree.pathLimit ∧ Path.isAbsolute p.1 = true) ∧ Tree.steps p.1 = [p.1.tail] := by
    decide +kernel
  have hname : ∀ p ∈ sharedSources, p.1.tail ≠ Files.dot ∧ p.1.tail ≠ Files.dotDot ∧
      p.1.tail.length ≤ Tree.nameLimit ∧
      sharedTree.get? [p.1.tail] = some (.file (Text.toBytes p.2)) := by
    decide +kernel
  obtain ⟨⟨hzero, hempty, hlimit, habsolute⟩, hsteps⟩ := hpath _ h
  obtain ⟨hdot, hdots, hshort, hget⟩ := hname _ h
  dsimp only at hzero hempty hlimit habsolute hsteps hdot hdots hshort hget
  have hfollow : sharedTree.follow true Tree.linkLimit [] [path.tail] =
      .ok (.present [path.tail] (.file (Text.toBytes source))) := by
    rw [Tree.follow]
    simp only [hdot, hdots, hshort.not_gt, hget, if_false, List.nil_append, List.isEmpty_nil, if_true]
  simp only [Tree.resolve, Tree.locate, hzero, hempty, hlimit.not_ge, habsolute, hsteps, hfollow,
    Bool.false_eq_true, if_false, if_true]

def sharedOptions : Options := { root := Path.of "/", jobs := 3 }

theorem processFile_sharedTree {path : Path} {source : Text} (h : (path, source) ∈ sharedSources) :
    sharedOptions.processFile sharedTree echoEngine path =
      (generateSource echoEngine defaultKeyword [] (Path.relativeTo (Path.of "/") path) source).mapError
        .missingName := by
  have hsource : ∀ p ∈ sharedSources, (Text.toBytes p.2).length ≤ ({} : Config).maxFileSize ∧
      Text.ofBytes? (Text.toBytes p.2) = some p.2 := by
    decide +kernel
  obtain ⟨hsmall, htext⟩ := hsource _ h
  dsimp only at hsmall htext
  simp [processFile, sharedOptions, generateFile, Tree.size, Tree.readText, Tree.readBytes,
    resolve_sharedTree h, hsmall.not_gt, htext, Except.mapError, bind, Except.bind]

/-- The reports of the two repeated names. -/
def sharedReports : List Diagnostic := [
  ⟨"a.pug".toList, some "x".toList, 4, .duplicateName "x".toList "a.pug".toList⟩,
  ⟨"b.pug".toList, some "x".toList, 4, .duplicateName "x".toList "a.pug".toList⟩]

/-- Two workers share two files, or cannot be started. -/
theorem generateFiles_accounts_for_files_sharedTree :
    (∃ found, sharedOptions.generateFiles sharedTree echoEngine (sharedSources.map Prod.fst) = .ok found ∧
      (∀ r, sharedOptions.Yields sharedTree echoEngine (sharedSources.map Prod.fst) r →
        r.bind (Findings.combine []) = .ok found) ∧
      found.documents.map Document.name = ["x".toList, "x".toList, "y".toList, "x".toList] ∧
      found.diagnostics = sharedReports ∧
      (found.diagnostics.filter fun g => g.problem.isDuplicateName).length = 2) ∧
    { sharedOptions with poolFault? := fun _ => some "no".toList }.generateFiles sharedTree echoEngine
      (sharedSources.map Prod.fst) = .error (.threadPool "no".toList) := by
  have hundisturbed : ∀ o : Options, o.Undisturbed sharedTree echoEngine (sharedSources.map Prod.fst) :=
    fun o => undisturbed_of_engine (fun _ => rfl) _
  have hstarts : sharedOptions.PoolStarts (sharedSources.map Prod.fst) := fun _ _ => rfl
  obtain ⟨-, hyields, -, haccounts⟩ := generateFiles_accounts_for_files (hundisturbed sharedOptions)
  obtain ⟨-, -, hfault, -⟩ := generateFiles_accounts_for_files
    (hundisturbed { sharedOptions with poolFault? := fun _ => some "no".toList })
  refine ⟨?_, hfault _ (by decide) (by decide) rfl⟩
  have hresults : sharedOptions.perFile sharedTree echoEngine false (sharedSources.map Prod.fst) =
      sharedSources.map fun p => (generateSource echoEngine defaultKeyword []
        (Path.relativeTo (Path.of "/") p.1) p.2).mapError .missingName := by
    rw [show false = sharedOptions.cancelled from rfl, perFile_eq_map (hundisturbed _), List.map_map]
    exact List.map_congr_left fun p hp => processFile_sharedTree hp
  have hshown : ((sharedOptions.generateFiles sharedTree echoEngine
      (sharedSources.map Prod.fst)).toOption.map fun f =>
        (f.documents.map Document.name, f.diagnostics)) =
        some (["x".toList, "x".toList, "y".toList, "x".toList], sharedReports) := by
    rw [generateFiles_of_starts hstarts, show sharedOptions.cancelled = false from rfl, hresults]
    decide +kernel
  cases hfound : sharedOptions.generateFiles sharedTree echoEngine (sharedSources.map Prod.fst) with
  | error e => simp [hfound, Except.toOption] at hshown
  | ok found =>
    simp only [hfound, Except.toOption, Option.map_some, Option.some.injEq, Prod.mk.injEq] at hshown
    obtain ⟨hnames, hreports⟩ := hshown
    refine ⟨found, rfl, fun r hr => (hyields r hr).trans hfound, hnames, hreports, ?_⟩
    have hcount := ((haccounts hstarts).2 found hfound).2
    rw [← List.length_map Document.name, hnames] at hcount
    have hdistinct : (["x".toList, "x".toList, "y".toList, "x".toList] : List Text).toFinset.card = 2 := by
      decide
    rw [hdistinct] at hcount
    simpa using hcount

end Options

end TemplateDocs
