import Mathlib
import TemplateDocs.Proofs.Files.Collection
import TemplateDocs.Proofs.Files.Following

/-!
# The end of a walk

A walk taken step by step: each step looks at one thing that is pending, and a directory that was not
listed yet puts its entries in front of what is pending. Links may lead from any directory to any
other, and still there are no more steps than things in the tree.
-/
namespace TemplateDocs.Files.Tree

/-- A walk under way. -/
structure Stage where
  /-- What is to be looked at, by the names that lead to it. -/
  pending : List (List Name)
  /-- The directories whose entries were listed, the last one first. -/
  listed : List Place
  /-- The files taken, the last one first. -/
  taken : List (List Name)

/-- The entries of the root are listed. -/
def Stage.first (tree : Tree) (start : Place) : Stage := ⟨tree.children start [], [start], []⟩

/-- What one look can do. -/
inductive Step (tree : Tree) (s : Selection) (root : Path) : Stage → Stage → Prop
  | list {names : List Name} {pending taken : List (List Name)} {listed : List Place} {place : Place}
      (hdir : tree.directory (Path.append root (namesPath names)) = .ok place)
      (henters : s.entersDirectory names = true) (hnew : place ∉ listed) :
      Step tree s root ⟨names :: pending, listed, taken⟩
        ⟨tree.children place names ++ pending, place :: listed, taken⟩
  | pass {names : List Name} {pending taken : List (List Name)} {listed : List Place} {place : Place}
      (hdir : tree.directory (Path.append root (namesPath names)) = .ok place)
      (hskip : s.entersDirectory names = true → place ∈ listed) :
      Step tree s root ⟨names :: pending, listed, taken⟩ ⟨pending, listed, taken⟩
  | take {names : List Name} {pending taken : List (List Name)} {listed : List Place} {fault : Fault}
      (hfile : tree.directory (Path.append root (namesPath names)) = .error fault)
      (htakes : s.takesFile names = true) :
      Step tree s root ⟨names :: pending, listed, taken⟩ ⟨pending, listed, names :: taken⟩
  | leave {names : List Name} {pending taken : List (List Name)} {listed : List Place} {fault : Fault}
      (hfile : tree.directory (Path.append root (namesPath names)) = .error fault)
      (htakes : s.takesFile names = false) :
      Step tree s root ⟨names :: pending, listed, taken⟩ ⟨pending, listed, taken⟩

/-- A number of steps. -/
inductive Steps (tree : Tree) (s : Selection) (root : Path) (first : Stage) : Nat → Stage → Prop
  | none : Steps tree s root first 0 first
  | more {n : Nat} {stage next : Stage} (h : Steps tree s root first n stage)
      (hstep : Step tree s root stage next) : Steps tree s root first (n + 1) next

/-- The places of what stands in a directory. -/
def contents (tree : Tree) (place : Place) : List Place :=
  (tree.entries place).map fun name => place ++ [name]

/-- The outcome of a walk that is under way. -/
def Stage.outcome (tree : Tree) (s : Selection) (root : Path) (stage : Stage) : Walk :=
  let rest := tree.walk s root stage.listed stage.pending
  ⟨stage.taken.reverse ++ rest.files, rest.listed⟩

/-- What holds after `n` steps of a walk that comes to `outcome`. -/
structure Stage.Sound (tree : Tree) (s : Selection) (root : Path) (outcome : Walk) (n : Nat)
    (stage : Stage) : Prop where
  nodup : stage.listed.Nodup
  directories : stage.listed ⊆ tree.directories
  /-- Everything in a listed directory was looked at or is pending. -/
  count : n + stage.pending.length = (stage.listed.flatMap tree.contents).length
  outcome : stage.outcome tree s root = outcome

section

variable {tree : Tree} {s : Selection} {root : Path} {start : Place} {outcome : Walk} {n : Nat}
  {stage next : Stage}

theorem contents_nodup (hplaces : tree.DistinctPlaces) {listed : List Place} (h : listed.Nodup) :
    (listed.flatMap tree.contents).Nodup := by
  rw [List.nodup_flatMap]
  constructor
  · intro place _
    exact (hplaces.entries_nodup place).map fun a b hab => by simpa using hab
  · refine h.imp ?_
    intro p q hne place hp hq
    obtain ⟨_, -, rfl⟩ := List.mem_map.mp hp
    obtain ⟨_, -, hsame⟩ := List.mem_map.mp hq
    exact hne (List.append_inj' hsame rfl).1.symm

theorem contents_length_le (hplaces : tree.DistinctPlaces) {listed : List Place} (h : listed.Nodup) :
    (listed.flatMap tree.contents).length ≤ tree.nodes.length := by
  have hsub : listed.flatMap tree.contents ⊆ tree.nodes.map Prod.fst := by
    intro p hp
    obtain ⟨place, -, hp⟩ := List.mem_flatMap.mp hp
    obtain ⟨name, hname, rfl⟩ := List.mem_map.mp hp
    exact mem_entries.mp hname
  have hle := (List.subperm_of_subset (contents_nodup hplaces h) hsub).length_le
  rwa [List.length_map] at hle

theorem walk_skip {names : List Name} {listed : List Place} {place : Place}
    (hdir : tree.directory (Path.append root (namesPath names)) = .ok place)
    (hskip : s.entersDirectory names = true → place ∈ listed) (pending : List (List Name)) :
    tree.walk s root listed (names :: pending) = tree.walk s root listed pending := by
  rw [walk, hdir]
  exact dif_neg fun h => h.2.2 (hskip h.1)

theorem walk_file {names : List Name} {listed : List Place} {fault : Fault}
    (hfile : tree.directory (Path.append root (namesPath names)) = .error fault)
    (pending : List (List Name)) :
    tree.walk s root listed (names :: pending) =
      ⟨(if s.takesFile names then [names] else []) ++ (tree.walk s root listed pending).files,
        (tree.walk s root listed pending).listed⟩ := by
  rw [walk, hfile]
  dsimp only
  split_ifs <;> rfl

theorem Step.outcome_eq (hw : tree.WellFormed) (h : Step tree s root stage next) :
    next.outcome tree s root = stage.outcome tree s root := by
  cases h with
  | list hdir henters hnew =>
    have henter := enters?_eq_some_iff.mpr ⟨hdir, henters, hw.directory_mem hdir⟩
    simp only [Stage.outcome, walk_enter henter hnew]
  | pass hdir hskip => simp only [Stage.outcome, walk_skip hdir hskip]
  | take hfile htakes => simp [Stage.outcome, walk_file hfile, htakes]
  | leave hfile htakes => simp [Stage.outcome, walk_file hfile, htakes]

theorem first_sound (hw : tree.WellFormed) (hstart : tree.directory root = .ok start) :
    (Stage.first tree start).Sound tree s root (tree.walk s root [start] (tree.children start [])) 0 := by
  refine ⟨List.nodup_singleton start, ?_, ?_, rfl⟩
  · intro place hplace
    rw [List.mem_singleton.mp hplace]
    exact hw.directory_mem hstart
  · simp [Stage.first, contents, children]

theorem Step.sound (hw : tree.WellFormed) (hs : stage.Sound tree s root outcome n)
    (h : Step tree s root stage next) : next.Sound tree s root outcome (n + 1) := by
  have houtcome := (h.outcome_eq hw).trans hs.outcome
  have hcount := hs.count
  cases h with
  | list hdir _ hnew =>
    refine ⟨List.nodup_cons.mpr ⟨hnew, hs.nodup⟩,
      List.cons_subset.mpr ⟨hw.directory_mem hdir, hs.directories⟩, ?_, houtcome⟩
    simp only [List.length_cons, List.length_append, List.flatMap_cons, contents, children,
      List.length_map] at hcount ⊢
    omega
  | pass | take | leave =>
    refine ⟨hs.nodup, hs.directories, ?_, houtcome⟩
    simp only [List.length_cons] at hcount ⊢
    omega

theorem Steps.sound (hw : tree.WellFormed) (hstart : tree.directory root = .ok start)
    (h : Steps tree s root (.first tree start) n stage) :
    stage.Sound tree s root (tree.walk s root [start] (tree.children start [])) n := by
  induction h with
  | none => exact first_sound hw hstart
  | more _ hstep ih => exact hstep.sound hw ih

theorem Stage.Sound.steps_le (hw : tree.WellFormed) (h : stage.Sound tree s root outcome n) :
    n ≤ tree.nodes.length := by
  have hle := contents_length_le hw.distinct h.nodup
  have hcount := h.count
  omega

/-- As long as something is pending there is a step. -/
theorem exists_step (h : stage.pending ≠ []) : ∃ next, Step tree s root stage next := by
  obtain ⟨pending, listed, taken⟩ := stage
  cases pending with
  | nil => exact absurd rfl h
  | cons names pending =>
    cases hdir : tree.directory (Path.append root (namesPath names)) with
    | error fault =>
      cases htakes : s.takesFile names with
      | true => exact ⟨_, .take hdir htakes⟩
      | false => exact ⟨_, .leave hdir htakes⟩
    | ok place =>
      by_cases hskip : s.entersDirectory names = true → place ∈ listed
      · exact ⟨_, .pass hdir hskip⟩
      · push Not at hskip
        exact ⟨_, .list hdir hskip.1 hskip.2⟩

/-- Either the walk is at its end within `n` steps, or it can be taken that far. -/
theorem steps_or_end (first : Stage) (n : Nat) :
    (∃ stage, Steps tree s root first n stage) ∨
      ∃ m last, Steps tree s root first m last ∧ last.pending = [] := by
  induction n with
  | zero => exact .inl ⟨first, .none⟩
  | succ n ih =>
    rcases ih with ⟨stage, hsteps⟩ | hend
    · by_cases hpending : stage.pending = []
      · exact .inr ⟨n, stage, hsteps, hpending⟩
      · obtain ⟨next, hstep⟩ := exists_step hpending
        exact .inl ⟨next, .more hsteps hstep⟩
    · exact .inr hend

/-- A walk ends, whatever links there are: no walk has more steps than there are things in the tree,
none lists a directory twice, and one that goes on as long as it can comes to the outcome. -/
theorem walk_ends (hw : tree.WellFormed) (hstart : tree.directory root = .ok start) :
    (∀ n stage, Steps tree s root (.first tree start) n stage →
      n ≤ tree.nodes.length ∧ stage.listed.Nodup ∧ stage.listed ⊆ tree.directories) ∧
    ∃ n last, Steps tree s root (.first tree start) n last ∧ last.pending = [] ∧
      tree.walk s root [start] (tree.children start []) = ⟨last.taken.reverse, last.listed⟩ := by
  constructor
  · intro n stage hsteps
    have hs := hsteps.sound hw hstart
    exact ⟨hs.steps_le hw, hs.nodup, hs.directories⟩
  · rcases steps_or_end (s := s) (.first tree start) (tree.nodes.length + 1) with ⟨stage, hsteps⟩ | hend
    · have hle := (hsteps.sound hw hstart).steps_le hw
      omega
    · obtain ⟨n, last, hsteps, hpending⟩ := hend
      refine ⟨n, last, hsteps, hpending, ?_⟩
      rw [← (hsteps.sound hw hstart).outcome, Stage.outcome, hpending, walk, List.append_nil]

end

/-- Two directories with links to each other, and a link to the top. -/
def circleTree : Tree where
  nodes := [([Path.of "a"], .directory), ([Path.of "a", Path.of "b"], .link (Path.of "/b")),
    ([Path.of "a", Path.of "top"], .link (Path.of "..")), ([Path.of "b"], .directory),
    ([Path.of "b", Path.of "a"], .link (Path.of "../a"))]

theorem walk_ends_circleTree : circleTree.WellFormed ∧ circleTree.directory (Path.of "/") = .ok [] ∧
    circleTree.directory (Path.of "/a/b/a/top/b") = .ok [Path.of "b"] ∧
    ∀ n stage, Steps circleTree everything (Path.of "/") (.first circleTree []) n stage →
      n ≤ 5 ∧ stage.listed.Nodup := by
  have hw : circleTree.WellFormed := by decide
  have hdirectory : circleTree.directory (Path.of "/") = .ok [] ∧
      circleTree.directory (Path.of "/a/b/a/top/b") = .ok [Path.of "b"] := by
    simp [directory, resolve, locate, follow, steps, Path.of, slash, dot, dotDot, Text.toBytes,
      Path.isAbsolute, pathLimit, linkLimit, Text.split, circleTree, get?, nameLimit, Text.encodeChar]
  refine ⟨hw, hdirectory.1, hdirectory.2, ?_⟩
  intro n stage hsteps
  obtain ⟨hle, hnodup, -⟩ := (walk_ends hw hdirectory.1).1 n stage hsteps
  exact ⟨hle, hnodup⟩

end TemplateDocs.Files.Tree
