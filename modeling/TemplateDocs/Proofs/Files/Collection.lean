import Mathlib
import TemplateDocs.Proofs.Files.Trails

/-!
# Whether the order of listing shows

The files of a collection are sorted, but a directory with two trails is gone into by the one that
the listing puts first. So the same files are collected in every order exactly if each file that can
be taken is reached through directories that have no other trail.
-/
namespace TemplateDocs.Files.Tree

section

variable {tree other : Tree} {s : Selection} {root : Path} {start : Place}

/-! ### What does not depend on the order -/

theorem Relisted.enters? (hplaces : tree.DistinctPlaces) (h : tree.Relisted other) (names : List Name) :
    other.enters? s root names = tree.enters? s root names := by
  ext place
  rw [enters?_eq_some_iff, enters?_eq_some_iff, h.directory hplaces, h.mem_directories]

theorem Relisted.takes (hplaces : tree.DistinctPlaces) (h : tree.Relisted other) (names : List Name) :
    other.takes s root names = tree.takes s root names := by
  simp only [Tree.takes, isDirectory, h.directory hplaces]

theorem Relisted.trail (hplaces : tree.DistinctPlaces) (h : tree.Relisted other) {names : List Name}
    {places : List Place} (htrail : other.Trail s root start names places) :
    tree.Trail s root start names places := by
  induction htrail with
  | start => exact .start
  | step _ hname henter hnew ih =>
    rw [h.enters? hplaces] at henter
    exact .step ih ((h.entries _).mem_iff.mp hname) henter hnew

theorem Relisted.symm (h : tree.Relisted other) : other.Relisted tree :=
  ⟨h.nodes.symm, h.workdir.symm⟩

theorem Relisted.distinctPlaces (hplaces : tree.DistinctPlaces) (h : tree.Relisted other) :
    other.DistinctPlaces :=
  (h.nodes.map Prod.fst).nodup_iff.mpr hplaces

/-! ### Every trail is gone along in some order -/

/-- A trail each name of which is listed first in its directory. -/
inductive Leading (tree : Tree) (s : Selection) (root : Path) (start : Place) :
    List Name → List Place → Prop
  | start : Leading tree s root start [] [start]
  | step {names : List Name} {here place : Place} {earlier : List Place} {name : Name}
      (h : Leading tree s root start names (here :: earlier))
      (hname : (tree.entries here).head? = some name)
      (henter : tree.enters? s root (names ++ [name]) = some place) (hnew : place ∉ here :: earlier) :
      Leading tree s root start (names ++ [name]) (place :: here :: earlier)

/-- The walk goes along a leading trail before it goes anywhere else. -/
theorem Leading.walk {names : List Name} {places : List Place}
    (h : tree.Leading s root start names places) :
    ∃ here earlier visits pending, places = here :: earlier ∧ tree.Visits s root start visits ∧
      visits.map Prod.snd = places ∧ (names, here) ∈ visits ∧
      (∀ n ∈ pending, ∃ visit ∈ visits, n ∈ tree.below visit) ∧
      tree.walk s root [start] (tree.children start []) =
        tree.walk s root places (tree.children here names ++ pending) := by
  induction h with
  | start => exact ⟨start, [], _, [], rfl, .start, rfl, List.mem_singleton_self _, by simp, by simp⟩
  | @step names here place earlier name _ hname henter hnew ih =>
    obtain ⟨here, earlier, visits, pending, hplaces, hvisits, hsnd, hmem, hpending, hwalk⟩ := ih
    cases hplaces
    obtain ⟨others, hentries⟩ := List.head?_eq_some_iff.mp hname
    have hchildren : tree.children here names =
        (names ++ [name]) :: others.map fun n => names ++ [n] := by
      simp [children, hentries]
    have hentry : name ∈ tree.entries here := by simp [hentries]
    refine ⟨place, _, (names ++ [name], place) :: visits,
      others.map (fun n => names ++ [n]) ++ pending, rfl, ?_, ?_, List.mem_cons_self, ?_, ?_⟩
    · exact .enter hvisits hmem hentry henter (hsnd ▸ hnew)
    · rw [List.map_cons, hsnd]
    · intro n hn
      rcases List.mem_append.mp hn with hn | hn
      · refine ⟨(names, here), List.mem_cons_of_mem _ hmem, ?_⟩
        change n ∈ tree.children here names
        rw [hchildren]
        exact List.mem_cons_of_mem _ hn
      · obtain ⟨visit, hvisit, hbelow⟩ := hpending n hn
        exact ⟨visit, List.mem_cons_of_mem _ hvisit, hbelow⟩
    · rw [hwalk, hchildren, List.cons_append, walk_enter henter hnew]

/-- A trail becomes a leading one if its places are listed first. -/
theorem Trail.exists_chosen {names : List Name} {places : List Place} (hplaces : tree.DistinctPlaces)
    (h : tree.Trail s root start names places) :
    ∃ chosen : List Place, (∀ place ∈ chosen, place.dropLast ∈ places.tail) ∧
      ∀ more : List Place, chosen ⊆ more →
        (∀ place ∈ more, place ∈ chosen ∨ place.dropLast ∉ places.tail) →
          (tree.front more).Leading s root start names places := by
  induction h with
  | start => exact ⟨[], by simp, fun _ _ _ => .start⟩
  | @step names here place earlier name htrail hname henter hnew ih =>
    obtain ⟨chosen, hchosen, hleading⟩ := ih
    have hfresh : here ∉ earlier := (List.nodup_cons.mp htrail.nodup).1
    refine ⟨(here ++ [name]) :: chosen, ?_, ?_⟩
    · intro p hp
      rcases List.mem_cons.mp hp with rfl | hp
      · simp
      · exact List.mem_cons_of_mem _ (hchosen p hp)
    · intro more hsub hmore
      have hnames : ∀ n, here ++ [n] ∈ more ↔ n = name := by
        intro n
        constructor
        · intro hn
          rcases hmore _ hn with hn | hn
          · rcases List.mem_cons.mp hn with hn | hn
            · simpa using hn
            · exact absurd (by simpa using hchosen _ hn) hfresh
          · simp at hn
        · rintro rfl
          exact hsub List.mem_cons_self
      refine .step (hleading more ?_ ?_) (head?_entries_front hname hnames) ?_ hnew
      · exact fun p hp => hsub (List.mem_cons_of_mem _ hp)
      · intro p hp
        rcases hmore p hp with hp | hp
        · rcases List.mem_cons.mp hp with rfl | hp
          · exact .inr (by simpa using hfresh)
          · exact .inl hp
        · exact .inr fun hmem => hp (List.mem_cons_of_mem _ hmem)
      · rwa [(relisted_front more tree).enters? hplaces]

/-! ### What is found -/

/-- The files that a walk from the root finds, in the order of the walk. -/
def found (tree : Tree) (s : Selection) (root : Path) (start : Place) : List (List Name) :=
  (tree.walk s root [start] (tree.children start [])).files

theorem collect_eq (h : tree.directory root = .ok start) : tree.collect s root =
    .ok ((tree.found s root start).mergeSort fun a b => a ≤ b) := by
  rw [collect, h]
  rfl

/-- All visits of a walk: the files are what is taken below them, and they leave no directory out
that can be gone into. -/
theorem exists_visits (tree : Tree) (s : Selection) (root : Path) (start : Place) :
    ∃ visits, tree.Visits s root start visits ∧
      (tree.found s root start).Perm ((visits.flatMap tree.below).filter (tree.takes s root)) ∧
      ∀ names ∈ visits.flatMap tree.below, ∀ place, tree.enters? s root names = some place →
        place ∈ visits.map Prod.snd := by
  have hpending : ∀ names ∈ tree.children start [], ∃ visit ∈ [(([] : List Name), start)],
      names ∈ tree.below visit := fun names hnames => ⟨_, List.mem_singleton_self _, hnames⟩
  have hstart : tree.Visits s root start [([], start)] := .start
  obtain ⟨coming, hvisits, hfiles, hclosed⟩ := walk_explores hstart hpending
  have hbelow : ((coming ++ [([], start)]).flatMap tree.below).Perm
      (tree.children start [] ++ coming.flatMap tree.below) := by
    rw [List.flatMap_append, List.flatMap_singleton]
    exact List.perm_append_comm
  refine ⟨_, hvisits, hfiles.trans (hbelow.filter _).symm, ?_⟩
  intro names hnames
  exact hclosed names (hbelow.mem_iff.mp hnames)

theorem Visits.place_eq {visits : List (List Name × Place)} (h : tree.Visits s root start visits)
    {names : List Name} {place place' : Place} (hmem : (names, place) ∈ visits)
    (hmem' : (names, place') ∈ visits) : place = place' := by
  obtain ⟨_, htrail, -⟩ := h.trail hmem
  obtain ⟨_, htrail', -⟩ := h.trail hmem'
  exact (List.cons.inj (htrail.unique htrail')).1

theorem found_nodup (hplaces : tree.DistinctPlaces) : (tree.found s root start).Nodup := by
  obtain ⟨visits, hvisits, hfiles, -⟩ := tree.exists_visits s root start
  rw [hfiles.nodup_iff]
  apply List.Nodup.filter
  rw [List.nodup_flatMap]
  constructor
  · intro visit _
    exact (hplaces.entries_nodup visit.2).map fun a b hab => by simpa using hab
  · refine List.Pairwise.imp_of_mem ?_ (List.pairwise_map.mp hvisits.nodup)
    intro v w hv hw hne names hnv hnw
    obtain ⟨n, -, rfl⟩ := mem_below.mp hnv
    obtain ⟨n', -, hnames⟩ := mem_below.mp hnw
    obtain ⟨hsame, -⟩ := List.append_inj' hnames rfl
    exact hne (hvisits.place_eq hv (hsame ▸ hw))

/-- No directory on the way has another trail. -/
def Sole (tree : Tree) (s : Selection) (root : Path) (start : Place) (names : List Name) : Prop :=
  ∀ shorter, shorter <+: names → ∀ place earlier earlier' other,
    tree.Trail s root start shorter (place :: earlier) →
      tree.Trail s root start other (place :: earlier') → other = shorter

/-- A trail leads to the file's directory, and the file is taken. -/
def Offered (tree : Tree) (s : Selection) (root : Path) (start : Place) (names : List Name)
    (name : Name) : Prop :=
  ∃ here earlier, tree.Trail s root start names (here :: earlier) ∧ name ∈ tree.entries here ∧
    tree.takes s root (names ++ [name]) = true

/-- A walk goes along a sole trail, whatever the order. -/
theorem Visits.mem_of_sole {visits : List (List Name × Place)} (h : tree.Visits s root start visits)
    (hclosed : ∀ names ∈ visits.flatMap tree.below, ∀ place, tree.enters? s root names = some place →
      place ∈ visits.map Prod.snd)
    {names : List Name} {places : List Place} (htrail : tree.Trail s root start names places)
    (hsole : tree.Sole s root start names) : ∀ place ∈ places.head?, (names, place) ∈ visits := by
  induction htrail with
  | start =>
    intro place hplace
    cases hplace
    exact h.start_mem
  | @step names here place earlier name htrail hname henter hnew ih =>
    have hhere := ih (fun shorter hpre => hsole shorter (hpre.trans (List.prefix_append _ _))) here rfl
    have hbelow : names ++ [name] ∈ visits.flatMap tree.below :=
      List.mem_flatMap.mpr ⟨_, hhere, mem_below.mpr ⟨name, hname, rfl⟩⟩
    obtain ⟨⟨other, p⟩, hvisit, rfl⟩ := List.mem_map.mp (hclosed _ hbelow place henter)
    obtain ⟨earlier', hother, -⟩ := h.trail hvisit
    have hsame := hsole _ (List.prefix_refl _) _ _ _ _ (.step htrail hname henter hnew) hother
    intro q hq
    cases hq
    rwa [← hsame]

theorem mem_found_iff (hsole : ∀ names name, tree.Offered s root start names name →
    tree.Sole s root start names) {file : List Name} : file ∈ tree.found s root start ↔
      ∃ names name, names ++ [name] = file ∧ tree.Offered s root start names name := by
  obtain ⟨visits, hvisits, hfiles, hclosed⟩ := tree.exists_visits s root start
  rw [hfiles.mem_iff, List.mem_filter, List.mem_flatMap]
  constructor
  · rintro ⟨⟨⟨names, here⟩, hvisit, hbelow⟩, htakes⟩
    obtain ⟨name, hname, rfl⟩ := mem_below.mp hbelow
    obtain ⟨earlier, htrail, -⟩ := hvisits.trail hvisit
    exact ⟨names, name, rfl, here, earlier, htrail, hname, htakes⟩
  · rintro ⟨names, name, rfl, hoffered⟩
    have hnames := hsole names name hoffered
    obtain ⟨here, earlier, htrail, hname, htakes⟩ := hoffered
    have hvisit := hvisits.mem_of_sole hclosed htrail hnames here rfl
    exact ⟨⟨_, hvisit, mem_below.mpr ⟨name, hname, rfl⟩⟩, htakes⟩

/-- In some order the walk goes into the directory at the end of the trail, and takes what is there. -/
theorem Trail.exists_relisted {names : List Name} {here : Place} {earlier : List Place}
    (hplaces : tree.DistinctPlaces) (h : tree.Trail s root start names (here :: earlier)) :
    ∃ other, tree.Relisted other ∧ ∃ visits, other.Visits s root start visits ∧
      (names, here) ∈ visits ∧
      (∀ file ∈ other.found s root start, ∃ visit ∈ visits, file ∈ other.below visit) ∧
      ∀ file ∈ other.below (names, here), other.takes s root file = true →
        file ∈ other.found s root start := by
  obtain ⟨chosen, -, hleading⟩ := h.exists_chosen hplaces
  obtain ⟨here', earlier', before, pending, hcons, hbefore, hsnd, hmem, hpending, hwalk⟩ :=
    (hleading chosen (List.Subset.refl _) fun p hp => .inl hp).walk
  cases hcons
  have hall : ∀ n ∈ (tree.front chosen).children here names ++ pending,
      ∃ visit ∈ before, n ∈ (tree.front chosen).below visit := by
    intro n hn
    rcases List.mem_append.mp hn with hn | hn
    · exact ⟨_, hmem, hn⟩
    · exact hpending n hn
  obtain ⟨coming, hvisits, hfiles, -⟩ := walk_explores hbefore hall
  rw [hsnd, ← hwalk] at hfiles
  refine ⟨_, relisted_front chosen tree, _, hvisits, List.mem_append_right _ hmem, ?_, ?_⟩
  · intro file hfile
    rcases List.mem_append.mp (List.mem_filter.mp (hfiles.mem_iff.mp hfile)).1 with hfile | hfile
    · obtain ⟨visit, hvisit, hbelow⟩ := hall file hfile
      exact ⟨visit, List.mem_append_right _ hvisit, hbelow⟩
    · obtain ⟨visit, hvisit, hbelow⟩ := List.mem_flatMap.mp hfile
      exact ⟨visit, List.mem_append_left _ hvisit, hbelow⟩
  · intro file hfile htakes
    refine hfiles.mem_iff.mpr (List.mem_filter.mpr ⟨?_, htakes⟩)
    exact List.mem_append_left _ (List.mem_append_left _ hfile)

/-! ### Both directions -/

theorem Relisted.offered (hplaces : tree.DistinctPlaces) (h : tree.Relisted other) {names : List Name}
    {name : Name} (hoffered : other.Offered s root start names name) :
    tree.Offered s root start names name := by
  obtain ⟨here, earlier, htrail, hname, htakes⟩ := hoffered
  refine ⟨here, earlier, h.trail hplaces htrail, (h.entries here).mem_iff.mp hname, ?_⟩
  rwa [← h.takes hplaces]

theorem Relisted.found_perm (hplaces : tree.DistinctPlaces) (h : tree.Relisted other)
    (hsole : ∀ names name, tree.Offered s root start names name → tree.Sole s root start names) :
    (other.found s root start).Perm (tree.found s root start) := by
  have hother := h.distinctPlaces hplaces
  have hsoleOther : ∀ names name, other.Offered s root start names name →
      other.Sole s root start names := by
    intro names name hoffered shorter hpre place earlier earlier' r htrail htrail'
    exact hsole names name (h.offered hplaces hoffered) shorter hpre place earlier earlier' r
      (h.trail hplaces htrail) (h.trail hplaces htrail')
  rw [List.perm_ext_iff_of_nodup (found_nodup hother) (found_nodup hplaces)]
  intro file
  rw [mem_found_iff hsoleOther, mem_found_iff hsole]
  constructor
  · rintro ⟨names, name, hfile, hoffered⟩
    exact ⟨names, name, hfile, h.offered hplaces hoffered⟩
  · rintro ⟨names, name, hfile, hoffered⟩
    exact ⟨names, name, hfile, h.symm.offered hother hoffered⟩

theorem mem_found_of_collect_eq {third : Tree} (h : tree.directory root = .ok start)
    (h' : third.directory root = .ok start) (hsame : third.collect s root = tree.collect s root)
    {file : List Name} : file ∈ third.found s root start ↔ file ∈ tree.found s root start := by
  rw [collect_eq h, collect_eq h', Except.ok.injEq] at hsame
  rw [← List.mem_mergeSort, hsame, List.mem_mergeSort]

/-- If the order does not show, the directories on the way to a file have no other trail. -/
theorem sole_of_order_free (hplaces : tree.DistinctPlaces) (hstart : tree.directory root = .ok start)
    (hfree : ∀ other, tree.Relisted other → other.collect s root = tree.collect s root)
    {names : List Name} {name : Name} (hoffered : tree.Offered s root start names name) :
    tree.Sole s root start names := by
  intro shorter hpre place earlier earlier' second htrail hsecond
  obtain ⟨here, before, hnames, hname, htakes⟩ := hoffered
  obtain ⟨one, hone, -, -, -, -, htaken⟩ := hnames.exists_relisted hplaces
  obtain ⟨two, htwo, visits, hvisits, hmem, hbelow, -⟩ := hsecond.exists_relisted hplaces
  have hfirst : names ++ [name] ∈ one.found s root start := by
    apply htaken
    · exact mem_below.mpr ⟨name, (hone.entries here).mem_iff.mpr hname, rfl⟩
    · rwa [hone.takes hplaces]
  have hfile : names ++ [name] ∈ two.found s root start := by
    rw [mem_found_of_collect_eq hstart ((htwo.directory hplaces root).trans hstart) (hfree two htwo)]
    rwa [mem_found_of_collect_eq hstart ((hone.directory hplaces root).trans hstart)
      (hfree one hone)] at hfirst
  -- the second tree goes in by the second trail, and still by all names that lead to the file
  obtain ⟨⟨names', p⟩, hvisit, hunder⟩ := hbelow _ hfile
  obtain ⟨n, -, hsplit⟩ := mem_below.mp hunder
  obtain ⟨rfl, -⟩ := List.append_inj' hsplit rfl
  obtain ⟨q, hq⟩ := hvisits.above hvisit hpre
  obtain ⟨_, hshorter, -⟩ := hvisits.trail hq
  have hplace : q = place := (List.cons.inj ((htwo.trail hplaces hshorter).unique htrail)).1
  subst hplace
  have hsame := List.inj_on_of_nodup_map hvisits.nodup hmem hq rfl
  exact congrArg Prod.fst hsame

/-- The order in which directories are listed does not show exactly if every file that can be taken
is reached through directories that have no other trail. -/
theorem collect_order_free_iff (hplaces : tree.DistinctPlaces) :
    (∀ other, tree.Relisted other → other.collect s root = tree.collect s root) ↔
      ∀ start, tree.directory root = .ok start →
        ∀ names name, tree.Offered s root start names name → tree.Sole s root start names := by
  constructor
  · intro hfree start hstart names name hoffered
    exact sole_of_order_free hplaces hstart hfree hoffered
  · intro hsole other hother
    have hdirectory := hother.directory hplaces root
    cases hstart : tree.directory root with
    | error fault => rw [collect, collect, hdirectory, hstart]
    | ok start =>
      rw [collect_eq hstart, collect_eq (hdirectory.trans hstart)]
      rw [mergeSort_eq_of_perm (hother.found_perm hplaces (hsole start hstart))]

end

/-! ### A link to the top and a link to a directory beside it -/

def everything : Selection := ⟨fun _ => true, fun _ _ => false, fun _ _ => false⟩

/-- A directory `a` with a file `x`, and a link in it that leads back to the top. -/
def loopTree : Tree where
  nodes := [([Path.of "a"], .directory), ([Path.of "a", Path.of "x"], .file []),
    ([Path.of "a", Path.of "b"], .link (Path.of "/"))]

theorem directory_loopTree : loopTree.directory (Path.of "/") = .ok [] ∧
    loopTree.directory (Path.of "/a") = .ok [Path.of "a"] ∧
    loopTree.directory (Path.of "/a/b") = .ok [] ∧
    loopTree.directory (Path.of "/a/x") = .error .notDirectory := by
  simp [directory, resolve, locate, follow, steps, Path.of, slash, dot, dotDot, Text.toBytes,
    Path.isAbsolute, pathLimit, linkLimit, Text.split, loopTree, get?, nameLimit, Text.encodeChar]

theorem trail_loopTree {names : List Name} {places : List Place}
    (h : loopTree.Trail everything (Path.of "/") [] names places) :
    names = [] ∧ places = [[]] ∨ names = [Path.of "a"] ∧ places = [[Path.of "a"], []] := by
  obtain ⟨-, ha, hb, hx⟩ := directory_loopTree
  induction h with
  | start => exact .inl ⟨rfl, rfl⟩
  | @step names here place earlier name _ hname henter hnew ih =>
    rcases ih with ⟨rfl, hplaces⟩ | ⟨rfl, hplaces⟩
    · cases hplaces
      have hentries : loopTree.entries [] = [Path.of "a"] := by decide
      rw [hentries, List.mem_singleton] at hname
      subst hname
      have hpath : Path.append (Path.of "/") (namesPath ([] ++ [Path.of "a"])) = Path.of "/a" := by decide
      rw [enters?_eq_some_iff, hpath, ha] at henter
      cases henter.1
      exact .inr ⟨rfl, rfl⟩
    · cases hplaces
      have hentries : loopTree.entries [Path.of "a"] = [Path.of "x", Path.of "b"] := by decide
      rw [hentries, List.mem_cons, List.mem_singleton] at hname
      rcases hname with rfl | rfl
      · have hpath : Path.append (Path.of "/") (namesPath ([Path.of "a"] ++ [Path.of "x"])) =
            Path.of "/a/x" := by decide
        rw [enters?_eq_some_iff, hpath, hx] at henter
        cases henter.1
      · have hpath : Path.append (Path.of "/") (namesPath ([Path.of "a"] ++ [Path.of "b"])) =
            Path.of "/a/b" := by decide
        rw [enters?_eq_some_iff, hpath, hb] at henter
        cases henter.1
        simp at hnew

theorem collect_order_free_loopTree : loopTree.DistinctPlaces ∧
    ∀ other, loopTree.Relisted other →
      other.collect everything (Path.of "/") = loopTree.collect everything (Path.of "/") := by
  have hplaces : loopTree.DistinctPlaces := by
    unfold DistinctPlaces
    decide
  refine ⟨hplaces, (collect_order_free_iff hplaces).mpr ?_⟩
  intro start hstart names name _ shorter _ place earlier earlier' other htrail hother
  rw [directory_loopTree.1] at hstart
  cases hstart
  rcases trail_loopTree htrail with ⟨rfl, hone⟩ | ⟨rfl, hone⟩
  · rcases trail_loopTree hother with ⟨rfl, -⟩ | ⟨-, htwo⟩
    · rfl
    · cases hone
      cases htwo
  · rcases trail_loopTree hother with ⟨-, htwo⟩ | ⟨rfl, -⟩
    · cases hone
      cases htwo
    · rfl

/-- A directory `a` with a file `x`, and a link `b` to it. -/
def linkedTree : Tree where
  nodes := [([Path.of "a"], .directory), ([Path.of "a", Path.of "x"], .file []),
    ([Path.of "b"], .link (Path.of "a"))]

theorem directory_linkedTree : linkedTree.directory (Path.of "/") = .ok [] ∧
    linkedTree.directory (Path.of "/a") = .ok [Path.of "a"] ∧
    linkedTree.directory (Path.of "/b") = .ok [Path.of "a"] ∧
    linkedTree.directory (Path.of "/a/x") = .error .notDirectory ∧
    linkedTree.directory (Path.of "/b/x") = .error .notDirectory := by
  simp [directory, resolve, locate, follow, steps, Path.of, slash, dot, dotDot, Text.toBytes,
    Path.isAbsolute, pathLimit, linkLimit, Text.split, linkedTree, get?, nameLimit, Text.encodeChar]

/-- Of two names of one directory, the one listed first is that of the file in it. -/
theorem found_of_two {tree : Tree} {s : Selection} {root : Path} {start place : Place}
    {first second name : Name} (hstart : tree.entries start = [first, second])
    (hplace : tree.entries place = [name]) (hne : place ≠ start)
    (hfirst : tree.enters? s root [first] = some place)
    (hsecond : tree.enters? s root [second] = some place)
    (hname : tree.enters? s root [first, name] = none)
    (htakes : tree.takes s root [first, name] = true) :
    tree.found s root start = [[first, name]] := by
  have hnew : place ∉ [start] := by simpa using hne
  have hchildren : tree.children start [] = [[first], [second]] := by simp [children, hstart]
  have hbelow : tree.children place [first] ++ [[second]] = [[first, name], [second]] := by
    simp [children, hplace]
  have hpassed : ∀ p, tree.enters? s root [second] = some p → p ∈ [place, start] := by
    intro p hp
    rw [hsecond] at hp
    cases hp
    exact List.mem_cons_self
  rw [found, hchildren, walk_enter hfirst hnew, hbelow, walk_pass (by simp [hname]),
    walk_pass hpassed]
  simp [htakes, takes_of_enters? hsecond, walk]

/-- The file is found under the name that is listed first. -/
theorem collect_linkedTree : linkedTree.DistinctPlaces ∧
    linkedTree.Relisted (linkedTree.front [[Path.of "b"]]) ∧
    linkedTree.collect everything (Path.of "/") = .ok [[Path.of "a", Path.of "x"]] ∧
    (linkedTree.front [[Path.of "b"]]).collect everything (Path.of "/") =
      .ok [[Path.of "b", Path.of "x"]] := by
  have hplaces : linkedTree.DistinctPlaces := by
    unfold DistinctPlaces
    decide
  have hrelisted := relisted_front [[Path.of "b"]] linkedTree
  obtain ⟨hroot, ha, hb, hax, hbx⟩ := directory_linkedTree
  have hpath : Path.append (Path.of "/") (namesPath [Path.of "a"]) = Path.of "/a" ∧
      Path.append (Path.of "/") (namesPath [Path.of "b"]) = Path.of "/b" ∧
      Path.append (Path.of "/") (namesPath [Path.of "a", Path.of "x"]) = Path.of "/a/x" ∧
      Path.append (Path.of "/") (namesPath [Path.of "b", Path.of "x"]) = Path.of "/b/x" := by decide
  obtain ⟨hpa, hpb, hpax, hpbx⟩ := hpath
  have henters : linkedTree.enters? everything (Path.of "/") [Path.of "a"] = some [Path.of "a"] ∧
      linkedTree.enters? everything (Path.of "/") [Path.of "b"] = some [Path.of "a"] ∧
      linkedTree.enters? everything (Path.of "/") [Path.of "a", Path.of "x"] = none ∧
      linkedTree.enters? everything (Path.of "/") [Path.of "b", Path.of "x"] = none := by
    simp only [enters?, hpa, hpb, hpax, hpbx, ha, hb, hax, hbx]
    decide +kernel
  have htakes : linkedTree.takes everything (Path.of "/") [Path.of "a", Path.of "x"] = true ∧
      linkedTree.takes everything (Path.of "/") [Path.of "b", Path.of "x"] = true := by
    simp only [takes, isDirectory, hpax, hpbx, hax, hbx]
    decide
  refine ⟨hplaces, hrelisted, ?_, ?_⟩
  · rw [collect_eq hroot, found_of_two (by decide) (by decide) (by decide) henters.1 henters.2.1
      henters.2.2.1 htakes.1, List.mergeSort_singleton]
  · rw [← hrelisted.directory hplaces] at hroot
    simp only [← hrelisted.enters? hplaces, ← hrelisted.takes hplaces] at henters htakes
    rw [collect_eq hroot, found_of_two (by decide) (by decide) (by decide) henters.2.1 henters.1
      henters.2.2.2 htakes.2, List.mergeSort_singleton]

end TemplateDocs.Files.Tree
