import Mathlib
import TemplateDocs.Proofs.Files.Collection
import TemplateDocs.Proofs.Files.Following
import TemplateDocs.Run

/-!
# Exactly the files that are asked for

Where no link below the root leads to a directory, a directory is reached by the names of its own
place only. So the walk leaves out what is below a directory that it may not enter, and nothing else.
A directory with a path that is too long for the system is one that it cannot enter, and it takes such
a directory for a file.
-/
namespace TemplateDocs.Files

/-- The name is UTF-8, and starts with a dot or is `node_modules`. -/
def Skipped (name : Name) : Prop :=
  ∃ t, Text.ofBytes? name = some t ∧ (t.head? = some '.' ∨ t = "node_modules".toList)

theorem isSkippedName_iff {name : Name} : isSkippedName name = true ↔ Skipped name := by
  simp only [isSkippedName, Option.any_eq_true, Bool.or_eq_true, decide_eq_true_eq]
  rfl

instance (name : Name) : Decidable (Skipped name) := decidable_of_iff _ isSkippedName_iff

/-- Nothing speaks against a file: neither itself nor a directory that it stands in, the root apart. -/
structure Selection.Wants (s : Selection) (names : List Name) : Prop where
  included : s.included (namesPath names) = true
  ignored : s.ignored (namesPath names) false = false
  excluded : s.excluded (namesPath names) false = false
  above : ∀ above, above <+: names → above ≠ [] → above ≠ names →
    (∀ name ∈ above.getLast?, ¬ Skipped name) ∧
      s.ignored (namesPath above) true = false ∧ s.excluded (namesPath above) true = false

instance (s : Selection) (names : List Name) : Decidable (s.Wants names) :=
  decidable_of_iff (s.included (namesPath names) = true ∧ s.ignored (namesPath names) false = false ∧
      s.excluded (namesPath names) false = false ∧
      ∀ above ∈ names.inits, above ≠ [] → above ≠ names →
        (∀ name ∈ above.getLast?, ¬ Skipped name) ∧
          s.ignored (namesPath above) true = false ∧ s.excluded (namesPath above) true = false)
    (by simp only [List.mem_inits]
        exact ⟨fun h => ⟨h.1, h.2.1, h.2.2.1, h.2.2.2⟩, fun h => ⟨h.1, h.2, h.3, h.4⟩⟩)

namespace Selection

variable {s : Selection} {names : List Name}

theorem entersDirectory_iff : s.entersDirectory names = true ↔
    (∀ name ∈ names.getLast?, ¬ Skipped name) ∧
      s.ignored (namesPath names) true = false ∧ s.excluded (namesPath names) true = false := by
  unfold entersDirectory leavesOut
  simp only [← isSkippedName_iff]
  cases names.getLast? <;> simp

theorem takesFile_iff : s.takesFile names = true ↔ s.included (namesPath names) = true ∧
    s.ignored (namesPath names) false = false ∧ s.excluded (namesPath names) false = false := by
  simp [takesFile, leavesOut, and_comm]

end Selection

namespace Tree

/-- No link below the root leads to a directory. -/
def NoDirectoryLinks (tree : Tree) (root : Path) (start : Place) : Prop :=
  ∀ names target, (start ++ names, Node.link target) ∈ tree.nodes →
    tree.isDirectory (Path.append root (namesPath names)) = false

/-- The system takes the path of the names below the root: no name has more than 255 bytes, and all
of it has fewer than 4096. -/
structure Taken (root : Path) (names : List Name) : Prop where
  each : ∀ name ∈ names, name.length ≤ 255
  whole : (Path.append root (namesPath names)).length < 4096

instance (root : Path) (names : List Name) : Decidable (Taken root names) :=
  decidable_of_iff ((∀ name ∈ names, name.length ≤ 255) ∧
    (Path.append root (namesPath names)).length < 4096) ⟨fun h => ⟨h.1, h.2⟩, fun h => ⟨h.1, h.2⟩⟩

/-- Something below the root that the walk can come to and that is no directory for it, since it is
none or since the system does not take its path. -/
structure FileBelow (tree : Tree) (root : Path) (start : Place) (names : List Name) : Prop where
  below : names ≠ []
  stands : ∃ node, tree.get? (start ++ names) = some node ∧ (node = .directory → ¬ Taken root names)
  above : ∀ above, above <+: names → above ≠ [] → above ≠ names → Taken root above

/-- The system takes the path of everything below the root. -/
def Within (tree : Tree) (root : Path) (start : Place) : Prop :=
  ∀ names, start ++ names ∈ tree.nodes.map Prod.fst → Taken root names

section

variable {tree : Tree} {s : Selection} {root : Path} {start : Place}

theorem isDirectory_iff {p : Path} : tree.isDirectory p = true ↔ ∃ place, tree.directory p = .ok place := by
  unfold isDirectory
  cases tree.directory p <;> simp [Except.isOk, Except.toBool]

theorem WellFormed.above_mem (hw : tree.WellFormed) {place above : Place}
    (h : place ∈ tree.nodes.map Prod.fst) (hpre : above <+: place) (hne : above ≠ place) :
    above ∈ tree.directories := by
  induction place using List.reverseRecOn with
  | nil => exact absurd (List.prefix_nil.mp hpre) hne
  | append_singleton front name ih =>
    have hfront := hw.parent _ h
    rw [List.dropLast_concat] at hfront
    rcases List.prefix_concat_iff.mp hpre with heq | hpre
    · exact absurd heq hne
    · by_cases heq : above = front
      · exact heq ▸ hfront
      · refine ih (mem_places_of_mem_directories hfront ?_) hpre heq
        rintro rfl
        exact heq (List.prefix_nil.mp hpre)

variable (hw : tree.WellFormed) (hstart : tree.directory root = .ok start)
  (hlinks : tree.NoDirectoryLinks root start)

include hw in
theorem WellFormed.proper_below {names : List Name} (h : start ++ names ∈ tree.nodes.map Prod.fst) :
    ∀ name ∈ names, ProperName name :=
  fun name hname => hw.proper _ h name (List.mem_append_right _ hname)

include hw hstart hlinks

/-- One more name leads to the directory that stands there under that name. -/
theorem directory_concat {names : List Name} {name : Name} {place : Place}
    (hhere : tree.Reaches root names (start ++ names))
    (hstands : start ++ (names ++ [name]) ∈ tree.nodes.map Prod.fst)
    (h : tree.directory (Path.append root (namesPath (names ++ [name]))) = .ok place) :
    place = start ++ (names ++ [name]) ∧ tree.get? place = some .directory ∧
      tree.Reaches root (names ++ [name]) place := by
  have hroot : root ≠ [] := (directory_eq_ok_iff.mp hstart).1.ne_nil
  have hproper := hw.proper_below hstands
  obtain ⟨-, hreaches⟩ := (directory_append_iff hroot (by simp) hproper).mp h
  obtain ⟨here, hfront, ⟨hplace, hget⟩ | ⟨target, hget⟩⟩ := hreaches.last (hproper name (by simp))
  · obtain rfl := hfront.unique hhere
    rw [List.append_assoc] at hplace hget
    exact ⟨hplace, hplace ▸ hget, hreaches⟩
  · obtain rfl := hfront.unique hhere
    rw [List.append_assoc, get?_eq_some_iff hw.distinct (by simp)] at hget
    have hno := hlinks _ _ hget
    rw [Bool.eq_false_iff, ne_eq, isDirectory_iff] at hno
    exact absurd ⟨place, h⟩ hno

/-- A trail goes straight down from the root. -/
theorem Trail.straight {names : List Name} {places : List Place}
    (h : tree.Trail s root start names places) :
    places.head? = some (start ++ names) ∧ tree.Reaches root names (start ++ names) ∧
      (∀ place ∈ places, place.length ≤ (start ++ names).length) ∧
      ∀ above, above <+: names → above ≠ [] →
        tree.isDirectory (Path.append root (namesPath above)) = true ∧ s.entersDirectory above = true := by
  induction h with
  | start =>
    refine ⟨by simp, by simpa using reaches_root hstart, by simp, ?_⟩
    intro above hpre hne
    exact absurd (List.prefix_nil.mp hpre) hne
  | @step names here place earlier name _ hname henter _ ih =>
    obtain ⟨hhead, hreaches, hlength, habove⟩ := ih
    obtain rfl : here = start ++ names := by simpa using hhead
    obtain ⟨hdir, henters, -⟩ := enters?_eq_some_iff.mp henter
    have hstands := mem_entries.mp hname
    rw [List.append_assoc] at hstands
    obtain ⟨rfl, -, hlast⟩ := directory_concat hw hstart hlinks hreaches hstands hdir
    refine ⟨rfl, hlast, ?_, ?_⟩
    · intro p hp
      rcases List.mem_cons.mp hp with rfl | hp
      · exact le_rfl
      · refine (hlength p hp).trans ?_
        simp
    · intro above hpre hne
      rcases List.prefix_concat_iff.mp hpre with rfl | hpre
      · exact ⟨isDirectory_iff.mpr ⟨_, hdir⟩, henters⟩
      · exact habove above hpre hne

/-- Directories one below the other that may be entered make a trail. -/
theorem exists_trail {names : List Name} (hstands : start ++ names ∈ tree.directories)
    (h : ∀ above, above <+: names → above ≠ [] →
      tree.isDirectory (Path.append root (namesPath above)) = true ∧ s.entersDirectory above = true) :
    ∃ places, tree.Trail s root start names places := by
  induction names using List.reverseRecOn with
  | nil => exact ⟨_, .start⟩
  | append_singleton names name ih =>
    have hplace := mem_places_of_mem_directories hstands (by simp)
    have hparent := hw.dropLast_mem hstands
    rw [← List.append_assoc, List.dropLast_concat] at hparent
    obtain ⟨places, htrail⟩ := ih hparent fun above hpre =>
      h above (hpre.trans (List.prefix_append _ _))
    obtain ⟨hhead, hreaches, hlength, -⟩ := htrail.straight hw hstart hlinks
    obtain ⟨earlier, rfl⟩ := List.head?_eq_some_iff.mp hhead
    obtain ⟨hdirectory, henters⟩ := h _ (List.prefix_refl _) (by simp)
    obtain ⟨place, hdir⟩ := isDirectory_iff.mp hdirectory
    obtain ⟨rfl, -⟩ := directory_concat hw hstart hlinks hreaches hplace hdir
    refine ⟨_, .step htrail (mem_entries.mpr ?_) (enters?_eq_some_iff.mpr ⟨hdir, henters, hstands⟩) ?_⟩
    · rwa [List.append_assoc]
    · intro hmem
      have := hlength _ hmem
      simp at this

theorem sole_of_noDirectoryLinks {names : List Name} : tree.Sole s root start names := by
  intro shorter _ place earlier earlier' other htrail hother
  obtain ⟨hplace, -⟩ := htrail.straight hw hstart hlinks
  obtain ⟨hplace', -⟩ := hother.straight hw hstart hlinks
  have hsame : start ++ shorter = start ++ other := by simpa using hplace.symm.trans hplace'
  exact (List.append_cancel_left hsame).symm

omit hlinks in
theorem reaches_below {names : List Name} (hstands : start ++ names ∈ tree.directories)
    (hshort : ∀ name ∈ names, name.length ≤ nameLimit) :
    tree.Reaches root names (start ++ names) := by
  induction names using List.reverseRecOn with
  | nil => simpa using reaches_root hstart
  | append_singleton names name ih =>
    have hproper := hw.proper_below (mem_places_of_mem_directories hstands (by simp))
    have hparent := hw.dropLast_mem hstands
    have hget := (mem_directories_iff hw.distinct).mp hstands
    rw [← List.append_assoc] at hparent hget ⊢
    rw [List.dropLast_concat] at hparent
    have hhere := ih hparent fun n hn => hshort n (List.mem_append_left _ hn)
    exact hhere.concat (hproper name (by simp)) (hshort name (by simp)) hget

/-- What stands below the root is a directory for the walk if it is one and the system takes its
path. -/
theorem isDirectory_below_iff {names : List Name} (hne : names ≠ [])
    (hstands : start ++ names ∈ tree.nodes.map Prod.fst) :
    tree.isDirectory (Path.append root (namesPath names)) = true ↔
      tree.get? (start ++ names) = some .directory ∧ Taken root names := by
  have hroot := (directory_eq_ok_iff.mp hstart).1
  have hproper := hw.proper_below hstands
  rw [isDirectory_iff]
  constructor
  · rintro ⟨place, hdir⟩
    obtain ⟨haccepted, left, hleads⟩ := (directory_append_iff hroot.ne_nil hne hproper).mp hdir
    have hshort : ∀ name ∈ names, name.length ≤ nameLimit := fun name hname =>
      hleads.short name (List.mem_append_right _ hname)
    refine ⟨?_, hshort, haccepted.short⟩
    obtain ⟨front, name, rfl⟩ := (List.eq_nil_or_concat names).resolve_left hne
    rw [List.concat_eq_append] at hstands hdir hshort ⊢
    have hfront := hw.parent _ hstands
    rw [← List.append_assoc, List.dropLast_concat] at hfront
    have hhere := reaches_below hw hstart hfront fun n hn => hshort n (List.mem_append_left _ hn)
    obtain ⟨rfl, hget, -⟩ := directory_concat hw hstart hlinks hhere hstands hdir
    exact hget
  · rintro ⟨hget, htaken⟩
    refine ⟨start ++ names, (directory_append_iff hroot.ne_nil hne hproper).mpr ⟨?_, ?_⟩⟩
    · exact accepted_append hroot hproper htaken.whole
    · exact reaches_below hw hstart (hw.mem_of_get? hget) htaken.each

/-- A file for the walk, and the directories that it stands in. -/
theorem fileBelow_iff {names : List Name} : tree.FileBelow root start names ↔
    start ++ names ∈ tree.nodes.map Prod.fst ∧ names ≠ [] ∧
      (∀ above, above <+: names → above ≠ [] → above ≠ names →
        tree.isDirectory (Path.append root (namesPath above)) = true) ∧
      tree.isDirectory (Path.append root (namesPath names)) = false := by
  have habove {above : List Name} (hstands : start ++ names ∈ tree.nodes.map Prod.fst)
      (hpre : above <+: names) (hnil : above ≠ []) (hproper : above ≠ names) :
      tree.isDirectory (Path.append root (namesPath above)) = true ↔ Taken root above := by
    have hmem := hw.above_mem hstands ((List.prefix_append_right_inj start).mpr hpre)
      (by simpa using hproper)
    rw [isDirectory_below_iff hw hstart hlinks hnil (mem_places_of_mem_directories hmem (by simp [hnil])),
      and_iff_right ((mem_directories_iff hw.distinct).mp hmem)]
  constructor
  · rintro ⟨hne, ⟨node, hget, hnode⟩, htaken⟩
    have hstands : start ++ names ∈ tree.nodes.map Prod.fst :=
      List.mem_map_of_mem ((get?_eq_some_iff hw.distinct (by simp [hne])).mp hget)
    refine ⟨hstands, hne, fun above h h' h'' => (habove hstands h h' h'').mpr (htaken above h h' h''), ?_⟩
    rw [Bool.eq_false_iff, ne_eq, isDirectory_below_iff hw hstart hlinks hne hstands, hget]
    rintro ⟨heq, hwhole⟩
    exact hnode (Option.some.inj heq) hwhole
  · rintro ⟨hstands, hne, hdirs, hno⟩
    obtain ⟨⟨place, node⟩, hmem, rfl⟩ := List.mem_map.mp hstands
    have hget := (get?_eq_some_iff hw.distinct (by simp [hne])).mpr hmem
    refine ⟨hne, ⟨node, hget, ?_⟩, fun above h h' h'' => (habove hstands h h' h'').mp (hdirs above h h' h'')⟩
    rintro rfl htaken
    rw [(isDirectory_below_iff hw hstart hlinks hne hstands).mpr ⟨hget, htaken⟩] at hno
    cases hno

theorem exists_offered_iff {file : List Name} :
    (∃ names name, names ++ [name] = file ∧ tree.Offered s root start names name) ↔
      tree.FileBelow root start file ∧ s.Wants file := by
  rw [fileBelow_iff hw hstart hlinks]
  constructor
  · rintro ⟨names, name, rfl, here, earlier, htrail, hname, htakes⟩
    obtain ⟨hhead, -, -, habove⟩ := htrail.straight hw hstart hlinks
    obtain rfl : here = start ++ names := by simpa using hhead
    have hstands := mem_entries.mp hname
    rw [List.append_assoc] at hstands
    simp only [takes, Bool.and_eq_true, Bool.not_eq_true', Selection.takesFile_iff] at htakes
    obtain ⟨hno, hincluded, hignored, hexcluded⟩ := htakes
    have hproper : ∀ above, above <+: names ++ [name] → above ≠ [] → above ≠ names ++ [name] →
        tree.isDirectory (Path.append root (namesPath above)) = true ∧
          s.entersDirectory above = true := by
      intro above hpre hne hproper
      exact habove above ((List.prefix_concat_iff.mp hpre).resolve_left hproper) hne
    exact ⟨⟨hstands, by simp, fun above h h' h'' => (hproper above h h' h'').1, hno⟩,
      ⟨hincluded, hignored, hexcluded,
        fun above h h' h'' => Selection.entersDirectory_iff.mp (hproper above h h' h'').2⟩⟩
  · rintro ⟨⟨hstands, hbelow, hdirs, hno⟩, hwants⟩
    obtain ⟨names, name, rfl⟩ := (List.eq_nil_or_concat file).resolve_left hbelow
    rw [List.concat_eq_append] at hstands hdirs hno hwants ⊢
    have hparent := hw.parent _ hstands
    rw [← List.append_assoc, List.dropLast_concat] at hparent
    obtain ⟨places, htrail⟩ := exists_trail hw hstart hlinks hparent fun above hpre hne => by
      have hlonger := hpre.trans (List.prefix_append names [name])
      have hshorter : above ≠ names ++ [name] := by
        rintro rfl
        have := hpre.length_le
        simp at this
      exact ⟨hdirs above hlonger hne hshorter,
        Selection.entersDirectory_iff.mpr (hwants.above above hlonger hne hshorter)⟩
    obtain ⟨hhead, -⟩ := htrail.straight hw hstart hlinks
    obtain ⟨earlier, rfl⟩ := List.head?_eq_some_iff.mp hhead
    refine ⟨names, name, rfl, _, earlier, htrail, mem_entries.mpr ?_, ?_⟩
    · rwa [List.append_assoc]
    · simp only [takes, Bool.and_eq_true, Bool.not_eq_true', Selection.takesFile_iff]
      exact ⟨hno, hwants.included, hwants.ignored, hwants.excluded⟩

omit hlinks in
/-- Where the system takes every path, what counts is what stands there. -/
theorem Within.fileBelow_iff (hwithin : tree.Within root start) {names : List Name} :
    tree.FileBelow root start names ↔
      ∃ node, tree.get? (start ++ names) = some node ∧ node ≠ .directory := by
  have hplace {names : List Name} {node : Node} (hne : names ≠ [])
      (hget : tree.get? (start ++ names) = some node) : start ++ names ∈ tree.nodes.map Prod.fst :=
    List.mem_map_of_mem ((get?_eq_some_iff hw.distinct (by simp [hne])).mp hget)
  constructor
  · rintro ⟨hne, ⟨node, hget, hnode⟩, -⟩
    exact ⟨node, hget, fun heq => hnode heq (hwithin names (hplace hne hget))⟩
  · rintro ⟨node, hget, hnode⟩
    have hne : names ≠ [] := by
      rintro rfl
      rw [List.append_nil, (mem_directories_iff hw.distinct).mp (hw.directory_mem hstart)] at hget
      exact hnode (Option.some.inj hget).symm
    refine ⟨hne, ⟨node, hget, fun heq => absurd heq hnode⟩, ?_⟩
    intro above hpre hnil hproper
    have hmem := hw.above_mem (hplace hne hget) ((List.prefix_append_right_inj start).mpr hpre)
      (by simpa using hproper)
    exact hwithin above (mem_places_of_mem_directories hmem (by simp [hnil]))

theorem exists_collect (s : Selection) :
    ∃ files, tree.collect s root = .ok files ∧ files.Pairwise (· < ·) ∧
      ∀ names, names ∈ files ↔ tree.FileBelow root start names ∧ s.Wants names := by
  refine ⟨_, collect_eq hstart, ?_, ?_⟩
  · have hnodup : ((tree.found s root start).mergeSort fun a b => a ≤ b).Nodup :=
      (List.mergeSort_perm _ _).nodup_iff.mpr (found_nodup hw.distinct)
    exact (pairwise_mergeSort_names _).imp₂ (fun _ _ => Std.lt_of_le_of_ne) hnodup
  · intro names
    rw [List.mem_mergeSort, mem_found_iff fun _ _ _ => sole_of_noDirectoryLinks hw hstart hlinks,
      exists_offered_iff hw hstart hlinks]

/-- Where no link below the root leads to a directory, a collection holds, in the order of their
paths and each once, exactly the files below the root that are wanted. A directory with a path that is
too long is one of these files, and what is in it is not. -/
theorem collect_exact (s : Selection) :
    ∃ files, tree.collect s root = .ok files ∧ files.Pairwise (· < ·) ∧
      (∀ names, names ∈ files ↔ tree.FileBelow root start names ∧ s.Wants names) ∧
      (tree.Within root start → ∀ names, tree.FileBelow root start names ↔
        ∃ node, tree.get? (start ++ names) = some node ∧ node ≠ .directory) ∧
      ∀ o : Options, o.root = root → o.selection tree = .ok s →
        o.collect tree = .ok (files.map fun names => Path.append root (namesPath names)) := by
  obtain ⟨files, hcollect, hsorted, hmem⟩ := exists_collect hw hstart hlinks s
  refine ⟨files, hcollect, hsorted, hmem, ?_, ?_⟩
  · intro hwithin names
    exact hwithin.fileBelow_iff hw hstart
  · rintro o rfl hselection
    simp [Options.collect, Options.collectNames, hselection, hcollect, bind, Except.bind, Except.map,
      Except.mapError]

end

/-! ### A project with hidden directories -/

/-- A name that starts with a dot and is not UTF-8. -/
def strangeName : Name := [0x2E, 0xFF]

/-- A project with a directory, a hidden one, one under a strange name, one that is ignored, and a link
to a file. -/
def projectTree : Tree where
  nodes := [([Path.of "p"], .directory), ([Path.of "p", Path.of "a"], .directory),
    ([Path.of "p", Path.of "a", Path.of "x"], .file []), ([Path.of "p", Path.of ".b"], .directory),
    ([Path.of "p", Path.of ".b", Path.of "x"], .file []), ([Path.of "p", strangeName], .directory),
    ([Path.of "p", strangeName, Path.of "x"], .file []), ([Path.of "p", Path.of "c"], .directory),
    ([Path.of "p", Path.of "c", Path.of "x"], .file []), ([Path.of "p", Path.of "l"], .link (Path.of "a/x"))]

def exceptC : Selection := ⟨fun _ => true, fun path _ => path = Path.of "c", fun _ _ => false⟩

theorem directory_projectTree : projectTree.directory (Path.of "/p") = .ok [Path.of "p"] ∧
    projectTree.directory (Path.of "/p/l") = .error .notDirectory := by
  simp [directory, resolve, locate, follow, steps, Path.of, slash, dot, dotDot, Text.toBytes,
    Path.isAbsolute, pathLimit, linkLimit, Text.split, projectTree, strangeName, get?, nameLimit,
    Text.encodeChar]

/-- The file below the strange name is collected, the one below the hidden directory is not. -/
theorem collect_exact_projectTree : projectTree.WellFormed ∧
    projectTree.directory (Path.of "/p") = .ok [Path.of "p"] ∧
    projectTree.NoDirectoryLinks (Path.of "/p") [Path.of "p"] ∧
    ∃ files, projectTree.collect exceptC (Path.of "/p") = .ok files ∧ [Path.of "a", Path.of "x"] ∈ files ∧
      [Path.of "l"] ∈ files ∧ [strangeName, Path.of "x"] ∈ files ∧ [Path.of ".b", Path.of "x"] ∉ files ∧
      [Path.of "c", Path.of "x"] ∉ files := by
  have hw : projectTree.WellFormed := by decide
  obtain ⟨hstart, hlink⟩ := directory_projectTree
  have hlinks : projectTree.NoDirectoryLinks (Path.of "/p") [Path.of "p"] := by
    intro names target h
    obtain ⟨rfl, -⟩ : names = [Path.of "l"] ∧ target = Path.of "a/x" := by simpa [projectTree] using h
    have hpath : Path.append (Path.of "/p") (namesPath [Path.of "l"]) = Path.of "/p/l" := by decide
    rw [hpath, isDirectory, hlink]
    rfl
  have hwithin : projectTree.Within (Path.of "/p") [Path.of "p"] := by
    intro names h
    have hnames : names ∈ [[], [Path.of "a"], [Path.of "a", Path.of "x"], [Path.of ".b"],
        [Path.of ".b", Path.of "x"], [strangeName], [strangeName, Path.of "x"], [Path.of "c"],
        [Path.of "c", Path.of "x"], [Path.of "l"]] := by
      simpa [projectTree] using h
    clear h
    revert names
    decide
  obtain ⟨files, hcollect, -, hmem, hbelow, -⟩ := collect_exact hw hstart hlinks exceptC
  refine ⟨hw, hstart, hlinks, files, hcollect, ?_, ?_, ?_, ?_, ?_⟩
  · exact (hmem _).mpr ⟨(hbelow hwithin _).mpr ⟨.file [], by decide, by decide⟩, by decide +kernel⟩
  · exact (hmem _).mpr ⟨(hbelow hwithin _).mpr ⟨.link (Path.of "a/x"), by decide, by decide⟩, by decide +kernel⟩
  · exact (hmem _).mpr ⟨(hbelow hwithin _).mpr ⟨.file [], by decide, by decide⟩, by decide +kernel⟩
  · exact fun h => absurd ((hmem _).mp h).2 (by decide +kernel)
  · exact fun h => absurd ((hmem _).mp h).2 (by decide +kernel)

/-! ### A path that is too long -/

/-- Directories of one name, each in the one before it, and a file in the last of them. -/
def chainTree (name : Name) (depth : Nat) : Tree where
  nodes := ((List.range depth).map fun n => (List.replicate (n + 1) name, Node.directory)) ++
    [(List.replicate depth name ++ [Path.of "x"], .file [])]

section

variable {name : Name} {depth : Nat}

theorem places_chainTree : (chainTree name depth).nodes.map Prod.fst =
    ((List.range depth).map fun n => List.replicate (n + 1) name) ++
      [List.replicate depth name ++ [Path.of "x"]] := by
  simp [chainTree, Function.comp_def]

theorem mem_directories_chainTree {n : Nat} (h : n ≤ depth) :
    List.replicate n name ∈ (chainTree name depth).directories := by
  cases n with
  | zero => exact List.mem_cons_self
  | succ n =>
    have hnode : (List.replicate (n + 1) name, Node.directory) ∈ (chainTree name depth).nodes :=
      List.mem_append_left _ (List.mem_map.mpr ⟨n, List.mem_range.mpr h, rfl⟩)
    exact List.mem_cons_of_mem _ (List.mem_map.mpr ⟨_, List.mem_filter.mpr ⟨hnode, rfl⟩, rfl⟩)

theorem wellFormed_chainTree (hname : ProperName name) : (chainTree name depth).WellFormed where
  distinct := by
    have hlengths : ((chainTree name depth).nodes.map Prod.fst).map List.length =
        (List.range (depth + 1)).map (· + 1) := by
      rw [places_chainTree, List.range_succ]
      simp [Function.comp_def]
    refine List.Nodup.of_map List.length ?_
    rw [hlengths]
    exact List.nodup_range.map (add_left_injective 1)
  proper := by
    intro place hplace part hpart
    rw [places_chainTree, List.mem_append, List.mem_map, List.mem_singleton] at hplace
    rcases hplace with ⟨n, -, rfl⟩ | rfl
    · rwa [List.eq_of_mem_replicate hpart]
    · rcases List.mem_append.mp hpart with hpart | hpart
      · rwa [List.eq_of_mem_replicate hpart]
      · rw [List.mem_singleton.mp hpart]
        decide
  parent := by
    intro place hplace
    rw [places_chainTree, List.mem_append, List.mem_map, List.mem_singleton] at hplace
    rcases hplace with ⟨n, hn, rfl⟩ | rfl
    · rw [List.dropLast_replicate, Nat.add_sub_cancel]
      exact mem_directories_chainTree (List.mem_range.mp hn).le
    · rw [List.dropLast_concat]
      exact mem_directories_chainTree le_rfl
  workdir := List.mem_cons_self

theorem noDirectoryLinks_chainTree (root : Path) (start : Place) :
    (chainTree name depth).NoDirectoryLinks root start := by
  intro names target h
  simp [chainTree] at h

end

theorem directory_top (tree : Tree) : tree.directory (Path.of "/") = .ok [] := by
  simp [directory, resolve, locate, follow, steps, Path.of, slash, Text.toBytes, Path.isAbsolute,
    pathLimit, Text.split, Text.encodeChar]

theorem length_namesPath_replicate (name : Name) (n : Nat) :
    (namesPath (List.replicate (n + 1) name)).length + 1 = (n + 1) * (name.length + 1) := by
  induction n with
  | zero => simp [namesPath, Text.join_singleton]
  | succ n ih =>
    rw [List.replicate_succ, List.replicate_succ, namesPath, Text.join_cons_cons, ← List.replicate_succ]
    simp only [List.length_append, List.length_singleton]
    rw [namesPath] at ih
    rw [Nat.add_mul (n + 1), ← ih]
    omega

theorem length_append_top {names : List Name} (h : ∀ name ∈ names, ProperName name) :
    (Path.append (Path.of "/") (namesPath names)).length = (namesPath names).length + 1 := by
  have hlast : (Path.of "/").getLast? = some slash := by decide
  have hroot : Path.of "/" = [slash] := by decide
  rw [Path.append, isAbsolute_namesPath h, if_neg (by simp [hroot]), if_pos hlast, hroot]
  simp [Nat.add_comm]

theorem wants_everything {names : List Name} (h : ∀ name ∈ names, ¬ Skipped name) :
    everything.Wants names where
  included := rfl
  ignored := rfl
  excluded := rfl
  above _ hpre _ _ := ⟨fun name hname => h name (hpre.subset (List.mem_of_mem_getLast? hname)), rfl, rfl⟩

def longName : Name := List.replicate 255 0x64

theorem properName_longName : ProperName longName := by decide +kernel

theorem not_skipped_longName : ¬ Skipped longName := by decide +kernel

theorem taken_longNames_iff {n : Nat} : Taken (Path.of "/") (List.replicate (n + 1) longName) ↔ n < 15 := by
  have hlength : (Path.append (Path.of "/") (namesPath (List.replicate (n + 1) longName))).length =
      (n + 1) * 256 := by
    rw [length_append_top fun name hname => List.eq_of_mem_replicate hname ▸ properName_longName,
      length_namesPath_replicate, longName, List.length_replicate]
  constructor
  · intro h
    have := h.whole
    omega
  · intro h
    refine ⟨fun name hname => ?_, by omega⟩
    rw [List.eq_of_mem_replicate hname, longName, List.length_replicate]

/-- The path of the last directory has 4096 bytes. The directory is collected and the file in it is
not, though nothing speaks against either. -/
theorem collect_chainTree_tooLong : (chainTree longName 16).WellFormed ∧
    (chainTree longName 16).directory (Path.of "/") = .ok [] ∧
    (chainTree longName 16).NoDirectoryLinks (Path.of "/") [] ∧
    ∃ files, (chainTree longName 16).collect everything (Path.of "/") = .ok files ∧
      (chainTree longName 16).get? (List.replicate 16 longName) = some .directory ∧
      List.replicate 16 longName ∈ files ∧
      (chainTree longName 16).get? (List.replicate 16 longName ++ [Path.of "x"]) = some (.file []) ∧
      everything.Wants (List.replicate 16 longName ++ [Path.of "x"]) ∧
      List.replicate 16 longName ++ [Path.of "x"] ∉ files := by
  have hw : (chainTree longName 16).WellFormed := wellFormed_chainTree properName_longName
  have hlinks : (chainTree longName 16).NoDirectoryLinks (Path.of "/") [] :=
    noDirectoryLinks_chainTree (Path.of "/") []
  obtain ⟨files, hcollect, -, hmem⟩ := exists_collect hw (directory_top _) hlinks everything
  have hdirectory : (chainTree longName 16).get? (List.replicate 16 longName) = some .directory :=
    (mem_directories_iff hw.distinct).mp (mem_directories_chainTree le_rfl)
  have hlong : ∀ name ∈ List.replicate 16 longName, ¬ Skipped name := fun name hname =>
    List.eq_of_mem_replicate hname ▸ not_skipped_longName
  have hfile : ∀ name ∈ List.replicate 16 longName ++ [Path.of "x"], ¬ Skipped name := by
    intro name hname
    rcases List.mem_append.mp hname with hname | hname
    · exact hlong name hname
    · rw [List.mem_singleton.mp hname]
      decide +kernel
  refine ⟨hw, directory_top _, hlinks, files, hcollect, hdirectory, ?_, ?_, wants_everything hfile, ?_⟩
  · refine (hmem _).mpr ⟨⟨by simp, ⟨_, hdirectory, fun _ => mt taken_longNames_iff.mp (by decide)⟩, ?_⟩,
      wants_everything hlong⟩
    intro above hpre hnil hproper
    obtain ⟨hle, habove⟩ := List.prefix_replicate_iff.mp hpre
    rw [habove] at hproper ⊢
    obtain ⟨n, hn⟩ : ∃ n, above.length = n + 1 := Nat.exists_eq_add_one.mpr (List.length_pos_iff.mpr hnil)
    rw [hn] at hle hproper ⊢
    refine taken_longNames_iff.mpr ?_
    have hne : n ≠ 15 := fun heq => hproper (by rw [heq])
    omega
  · rw [get?_eq_some_iff hw.distinct (by simp)]
    exact List.mem_append_right _ (List.mem_singleton_self _)
  · intro h
    have htaken := ((hmem _).mp h).1.above _ (List.prefix_append _ _) (by simp) (by simp)
    exact absurd (taken_longNames_iff.mp htaken) (by decide)

end Tree
end TemplateDocs.Files
