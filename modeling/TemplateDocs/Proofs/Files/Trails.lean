import Mathlib
import TemplateDocs.Proofs.Files.Relisting

/-!
# Trails through a tree

A directory may be reached by several trails, since links lead to it from elsewhere. A walk goes
into it by the trail that comes first, and the files in it are found under the names of that trail.
-/
namespace TemplateDocs.Files.Tree

/-- The directory that names lead to, if the walk may go into it. -/
def enters? (tree : Tree) (s : Selection) (root : Path) (names : List Name) : Option Place :=
  (tree.directory (Path.append root (namesPath names))).toOption.filter fun place =>
    s.entersDirectory names && tree.directories.contains place

/-- Names lead to something that is no directory and is taken. -/
def takes (tree : Tree) (s : Selection) (root : Path) (names : List Name) : Bool :=
  !tree.isDirectory (Path.append root (namesPath names)) && s.takesFile names

section

variable {tree : Tree} {s : Selection} {root : Path} {names : List Name} {place : Place}

theorem enters?_eq_some_iff : tree.enters? s root names = some place ↔
    tree.directory (Path.append root (namesPath names)) = .ok place ∧
      s.entersDirectory names = true ∧ place ∈ tree.directories := by
  unfold enters?
  cases hdir : tree.directory (Path.append root (namesPath names)) with
  | error fault => simp [Except.toOption]
  | ok found =>
    simp only [Except.toOption, Option.filter_eq_some_iff, Option.some.injEq, Bool.and_eq_true,
      List.contains_iff_mem, Except.ok.injEq]

theorem takes_of_enters? (h : tree.enters? s root names = some place) :
    tree.takes s root names = false := by
  obtain ⟨hdir, -⟩ := enters?_eq_some_iff.mp h
  simp [takes, isDirectory, hdir, Except.isOk, Except.toBool]

theorem walk_enter (h : tree.enters? s root names = some place) {listed : List Place}
    (hnew : place ∉ listed) (pending : List (List Name)) :
    tree.walk s root listed (names :: pending) =
      tree.walk s root (place :: listed) (tree.children place names ++ pending) := by
  obtain ⟨hdir, henters, hmem⟩ := enters?_eq_some_iff.mp h
  rw [walk, hdir]
  exact dif_pos ⟨henters, hmem, hnew⟩

theorem walk_pass {listed : List Place}
    (h : ∀ place, tree.enters? s root names = some place → place ∈ listed)
    (pending : List (List Name)) :
    (tree.walk s root listed (names :: pending)).files =
      [names].filter (tree.takes s root) ++ (tree.walk s root listed pending).files := by
  rw [walk]
  cases hdir : tree.directory (Path.append root (namesPath names)) with
  | ok found =>
    have hskip : ¬ (s.entersDirectory names ∧ found ∈ tree.directories ∧ found ∉ listed) := by
      rintro ⟨henters, hmem, hnew⟩
      exact hnew (h found (enters?_eq_some_iff.mpr ⟨hdir, henters, hmem⟩))
    have htakes : tree.takes s root names = false := by
      simp [takes, isDirectory, hdir, Except.isOk, Except.toBool]
    rw [List.filter_cons_of_neg (by simp [htakes])]
    exact congrArg Walk.files (dif_neg hskip)
  | error fault =>
    have htakes : tree.takes s root names = s.takesFile names := by
      simp [takes, isDirectory, hdir, Except.isOk, Except.toBool]
    dsimp only
    split_ifs with hfile
    · rw [List.filter_cons_of_pos (by simp [htakes, hfile])]
      rfl
    · rw [List.filter_cons_of_neg (by simp [htakes, hfile])]
      rfl

end

/-! ### Trails -/

/-- Names that lead from directory to directory and into none twice, with the directories on the way,
the last one first. -/
inductive Trail (tree : Tree) (s : Selection) (root : Path) (start : Place) :
    List Name → List Place → Prop
  | start : Trail tree s root start [] [start]
  | step {names : List Name} {here place : Place} {earlier : List Place} {name : Name}
      (h : Trail tree s root start names (here :: earlier)) (hname : name ∈ tree.entries here)
      (henter : tree.enters? s root (names ++ [name]) = some place) (hnew : place ∉ here :: earlier) :
      Trail tree s root start (names ++ [name]) (place :: here :: earlier)

/-- What a walk went into, each with the names it was reached by, the last one first. -/
inductive Visits (tree : Tree) (s : Selection) (root : Path) (start : Place) :
    List (List Name × Place) → Prop
  | start : Visits tree s root start [([], start)]
  | enter {visits : List (List Name × Place)} {names : List Name} {here place : Place} {name : Name}
      (h : Visits tree s root start visits) (hmem : (names, here) ∈ visits)
      (hname : name ∈ tree.entries here)
      (henter : tree.enters? s root (names ++ [name]) = some place)
      (hnew : place ∉ visits.map Prod.snd) :
      Visits tree s root start ((names ++ [name], place) :: visits)

section

variable {tree : Tree} {s : Selection} {root : Path} {start : Place}

theorem Trail.nodup {names : List Name} {places : List Place}
    (h : tree.Trail s root start names places) : places.Nodup := by
  induction h with
  | start => exact List.nodup_singleton start
  | step _ _ _ hnew ih => exact List.nodup_cons.mpr ⟨hnew, ih⟩

/-- The names say which directories are on the way. -/
theorem Trail.unique {names : List Name} {places others : List Place}
    (h : tree.Trail s root start names places) (h' : tree.Trail s root start names others) :
    places = others := by
  induction h generalizing others with
  | start =>
    generalize hnames : ([] : List Name) = names at h'
    cases h' with
    | start => rfl
    | step => simp at hnames
  | @step names here place earlier name _ _ henter _ ih =>
    generalize hnames : names ++ [name] = longer at h'
    cases h' with
    | start => simp at hnames
    | step hrest _ henter' =>
      obtain ⟨rfl, hlast⟩ := List.append_inj' hnames rfl
      cases hlast
      rw [henter] at henter'
      cases henter'
      rw [ih hrest]

namespace Visits

variable {visits : List (List Name × Place)}

theorem start_mem (h : tree.Visits s root start visits) : ([], start) ∈ visits := by
  induction h with
  | start => exact List.mem_singleton_self _
  | enter _ _ _ _ _ ih => exact List.mem_cons_of_mem _ ih

theorem nodup (h : tree.Visits s root start visits) : (visits.map Prod.snd).Nodup := by
  induction h with
  | start => exact List.nodup_singleton start
  | enter _ _ _ _ hnew ih => exact List.nodup_cons.mpr ⟨hnew, ih⟩

/-- Every visit is the end of a trail through directories that were visited. -/
theorem trail (h : tree.Visits s root start visits) {names : List Name} {place : Place}
    (hmem : (names, place) ∈ visits) : ∃ earlier, tree.Trail s root start names (place :: earlier) ∧
      ∀ p ∈ place :: earlier, p ∈ visits.map Prod.snd := by
  induction h generalizing names place with
  | start =>
    cases List.mem_singleton.mp hmem
    exact ⟨[], .start, fun p hp => hp⟩
  | @enter visits above here found name hvisits habove hname henter hnew ih =>
    rcases List.mem_cons.mp hmem with hmem | hmem
    · cases hmem
      obtain ⟨earlier, htrail, hvisited⟩ := ih habove
      refine ⟨here :: earlier, .step htrail hname henter fun hp => hnew (hvisited _ hp), ?_⟩
      intro p hp
      rcases List.mem_cons.mp hp with rfl | hp
      · exact List.mem_cons_self
      · exact List.mem_cons_of_mem _ (hvisited p hp)
    · obtain ⟨earlier, htrail, hvisited⟩ := ih hmem
      exact ⟨earlier, htrail, fun p hp => List.mem_cons_of_mem _ (hvisited p hp)⟩

/-- A directory is visited after those on the way to it. -/
theorem above (h : tree.Visits s root start visits) {names shorter : List Name} {place : Place}
    (hmem : (names, place) ∈ visits) (hpre : shorter <+: names) :
    ∃ here, (shorter, here) ∈ visits := by
  induction h generalizing names place with
  | start =>
    cases List.mem_singleton.mp hmem
    rw [List.prefix_nil.mp hpre]
    exact ⟨start, List.mem_cons_self⟩
  | enter _ habove _ _ _ ih =>
    rcases List.mem_cons.mp hmem with hmem | hmem
    · cases hmem
      rcases List.prefix_concat_iff.mp hpre with rfl | hpre
      · exact ⟨_, List.mem_cons_self⟩
      · obtain ⟨here, hhere⟩ := ih habove hpre
        exact ⟨here, List.mem_cons_of_mem _ hhere⟩
    · obtain ⟨here, hhere⟩ := ih hmem hpre
      exact ⟨here, List.mem_cons_of_mem _ hhere⟩

end Visits

/-! ### What a walk visits -/

/-- What stands in a directory that was visited. -/
def below (tree : Tree) (visit : List Name × Place) : List (List Name) :=
  tree.children visit.2 visit.1

theorem mem_below {visit : List Name × Place} {names : List Name} :
    names ∈ tree.below visit ↔ ∃ name ∈ tree.entries visit.2, visit.1 ++ [name] = names := by
  simp [below, children]

/-- From a walk that has made the visits `before` and has `pending` before it: the visits that are
still to come, and the files that are found. -/
structure Explores (tree : Tree) (s : Selection) (root : Path) (start : Place)
    (before : List (List Name × Place)) (pending : List (List Name))
    (coming : List (List Name × Place)) (files : List (List Name)) : Prop where
  visits : tree.Visits s root start (coming ++ before)
  files : files.Perm ((pending ++ coming.flatMap tree.below).filter (tree.takes s root))
  closed : ∀ names ∈ pending ++ coming.flatMap tree.below, ∀ place,
    tree.enters? s root names = some place → place ∈ (coming ++ before).map Prod.snd

theorem Explores.enter {before coming : List (List Name × Place)} {names : List Name} {place : Place}
    {pending files : List (List Name)} (henter : tree.enters? s root names = some place)
    (h : tree.Explores s root start ((names, place) :: before)
      (tree.children place names ++ pending) coming files) :
    tree.Explores s root start before (names :: pending) (coming ++ [(names, place)]) files := by
  have happend : coming ++ [(names, place)] ++ before = coming ++ (names, place) :: before := by simp
  have hbelow : ((names :: pending) ++ (coming ++ [(names, place)]).flatMap tree.below).Perm
      (names :: ((tree.children place names ++ pending) ++ coming.flatMap tree.below)) := by
    rw [List.flatMap_append, List.flatMap_singleton, List.cons_append]
    refine .cons _ ?_
    change (pending ++ (coming.flatMap tree.below ++ tree.children place names)).Perm _
    rw [← List.append_assoc, List.append_assoc (tree.children place names)]
    exact List.perm_append_comm
  refine ⟨happend ▸ h.visits, ?_, ?_⟩
  · refine h.files.trans ?_
    refine List.Perm.trans ?_ (hbelow.filter _).symm
    rw [List.filter_cons_of_neg (by simp [takes_of_enters? henter])]
  · intro other hother found hfound
    rw [happend]
    rcases List.mem_cons.mp (hbelow.mem_iff.mp hother) with rfl | hother
    · rw [henter] at hfound
      cases hfound
      simp
    · exact h.closed other hother found hfound

theorem Explores.pass {before coming : List (List Name × Place)} {names : List Name}
    {pending files : List (List Name)}
    (hpass : ∀ place, tree.enters? s root names = some place → place ∈ before.map Prod.snd)
    (h : tree.Explores s root start before pending coming files) :
    tree.Explores s root start before (names :: pending) coming
      ([names].filter (tree.takes s root) ++ files) := by
  refine ⟨h.visits, ?_, ?_⟩
  · have hcons : (names :: pending) ++ coming.flatMap tree.below =
        [names] ++ (pending ++ coming.flatMap tree.below) := by simp
    rw [hcons, List.filter_append]
    exact h.files.append_left _
  · intro other hother place hplace
    rcases List.mem_cons.mp hother with rfl | hother
    · rw [List.map_append]
      exact List.mem_append_right _ (hpass place hplace)
    · exact h.closed other hother place hplace

theorem walk_explores {before : List (List Name × Place)} {pending : List (List Name)}
    (hbefore : tree.Visits s root start before)
    (hpending : ∀ names ∈ pending, ∃ visit ∈ before, names ∈ tree.below visit) :
    ∃ coming, tree.Explores s root start before pending coming
      (tree.walk s root (before.map Prod.snd) pending).files := by
  -- a visit leaves fewer directories to be listed, and everything else shortens what is pending
  induction hn : (tree.unlisted (before.map Prod.snd)).length using Nat.strong_induction_on
    generalizing before pending with
  | _ n ih =>
    induction pending with
    | nil => exact ⟨[], hbefore, by simp [walk], by simp⟩
    | cons names pending ihpending =>
      by_cases hpass : ∀ place, tree.enters? s root names = some place → place ∈ before.map Prod.snd
      · obtain ⟨coming, hcoming⟩ := ihpending fun n hn => hpending n (List.mem_cons_of_mem _ hn)
        rw [walk_pass hpass]
        exact ⟨coming, hcoming.pass hpass⟩
      · push Not at hpass
        obtain ⟨place, henter, hnew⟩ := hpass
        obtain ⟨visit, hvisit, hnames⟩ := hpending names List.mem_cons_self
        obtain ⟨name, hname, rfl⟩ := mem_below.mp hnames
        have hfewer := tree.unlisted_length_cons (enters?_eq_some_iff.mp henter).2.2 hnew
        have hvisits := Visits.enter hbefore hvisit hname henter hnew
        have hchildren : ∀ other ∈ tree.children place (visit.1 ++ [name]) ++ pending,
            ∃ v ∈ (visit.1 ++ [name], place) :: before, other ∈ tree.below v := by
          intro other hother
          rcases List.mem_append.mp hother with hother | hother
          · exact ⟨_, List.mem_cons_self, hother⟩
          · obtain ⟨v, hv, hbelow⟩ := hpending other (List.mem_cons_of_mem _ hother)
            exact ⟨v, List.mem_cons_of_mem _ hv, hbelow⟩
        obtain ⟨coming, hcoming⟩ := ih _ (hn ▸ hfewer) hvisits hchildren rfl
        rw [walk_enter henter hnew]
        exact ⟨_, hcoming.enter henter⟩

end

end TemplateDocs.Files.Tree
