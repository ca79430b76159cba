import Mathlib
import TemplateDocs.Files.Collect
import TemplateDocs.Proofs.Text

/-!
# The order in which directories are listed

A tree may list the entries of its directories in any order. What stands at a place and where a path
leads to does not depend on it; only the lists of entries are rearranged.
-/
namespace TemplateDocs.Files.Tree

/-- The same tree with its directories listed in another order. -/
structure Relisted (tree other : Tree) : Prop where
  nodes : other.nodes.Perm tree.nodes
  workdir : other.workdir = tree.workdir

/-- There is one thing at a place. -/
def DistinctPlaces (tree : Tree) : Prop := (tree.nodes.map Prod.fst).Nodup

/-! ### Paths -/

/-- Where a path leads to is a matter of what stands at each place. -/
theorem follow_congr {tree other : Tree} (h : ∀ place, other.get? place = tree.get? place)
    (last : Bool) (links : Nat) (at_ : Place) (todo : List Name) :
    other.follow last links at_ todo = tree.follow last links at_ todo := by
  -- a link costs one of the links left; every other step shortens what is to be done
  induction links generalizing at_ todo with
  | zero =>
    induction todo generalizing at_ with
    | nil => rw [follow, follow]
    | cons step rest ih =>
      rw [follow, follow.eq_def tree]
      simp only [h, ih]
  | succ links ihlinks =>
    induction todo generalizing at_ with
    | nil => rw [follow, follow]
    | cons step rest ih =>
      rw [follow, follow.eq_def tree]
      simp only [h, ih, ihlinks]

theorem directory_congr {tree other : Tree} (h : ∀ place, other.get? place = tree.get? place)
    (hworkdir : other.workdir = tree.workdir) (p : Path) : other.directory p = tree.directory p := by
  simp only [directory, resolve, locate, follow_congr h, hworkdir]

/-! ### Entries -/

/-- The name of what stands at `p`, if that is in the directory at `place`. -/
def nameIn? (place p : Place) : Option Name := if p.dropLast = place then p.getLast? else none

theorem nameIn?_eq_some_iff {place p : Place} {name : Name} :
    nameIn? place p = some name ↔ p = place ++ [name] := by
  unfold nameIn?
  constructor
  · intro h
    split_ifs at h with hplace
    rw [← hplace, List.dropLast_append_getLast? name h]
  · intro h
    simp [h]

theorem entries_eq (tree : Tree) (place : Place) :
    tree.entries place = (tree.nodes.map Prod.fst).filterMap (nameIn? place) := by
  rw [List.filterMap_map]
  rfl

theorem mem_entries {tree : Tree} {place : Place} {name : Name} :
    name ∈ tree.entries place ↔ place ++ [name] ∈ tree.nodes.map Prod.fst := by
  rw [entries_eq, List.mem_filterMap]
  constructor
  · rintro ⟨p, hp, hname⟩
    rwa [← nameIn?_eq_some_iff.mp hname]
  · intro h
    exact ⟨_, h, nameIn?_eq_some_iff.mpr rfl⟩

theorem DistinctPlaces.entries_nodup {tree : Tree} (h : tree.DistinctPlaces) (place : Place) :
    (tree.entries place).Nodup := by
  rw [entries_eq]
  refine List.Nodup.filterMap ?_ h
  intro p q name hp hq
  rw [nameIn?_eq_some_iff.mp hp, nameIn?_eq_some_iff.mp hq]

/-! ### Other orders -/

section

variable {tree other : Tree} (hplaces : tree.DistinctPlaces)
include hplaces

theorem get?_eq_some_iff {place : Place} (hplace : place ≠ []) {node : Node} :
    tree.get? place = some node ↔ (place, node) ∈ tree.nodes := by
  have hget : tree.get? place = (tree.nodes.find? fun n => n.1 = place).map Prod.snd := by
    cases place with
    | nil => exact absurd rfl hplace
    | cons name place => rfl
  rw [hget]
  constructor
  · intro h
    obtain ⟨n, hn, rfl⟩ := Option.map_eq_some_iff.mp h
    have hfound := List.find?_some hn
    rw [decide_eq_true_iff] at hfound
    rw [← hfound]
    exact List.mem_of_find?_eq_some hn
  · intro h
    cases hfind : tree.nodes.find? fun n => n.1 = place with
    | none => simpa using List.find?_eq_none.mp hfind _ h
    | some n =>
      have hplace := List.find?_some hfind
      rw [decide_eq_true_iff] at hplace
      have hsame : n = (place, node) :=
        List.inj_on_of_nodup_map hplaces (List.mem_of_find?_eq_some hfind) h hplace
      rw [hsame]
      rfl

theorem Relisted.get? (h : tree.Relisted other) (place : Place) : other.get? place = tree.get? place := by
  have hother : other.DistinctPlaces := (h.nodes.map Prod.fst).nodup_iff.mpr hplaces
  by_cases hplace : place = []
  · subst hplace
    rfl
  · ext node
    rw [get?_eq_some_iff hother hplace, get?_eq_some_iff hplaces hplace, h.nodes.mem_iff]

theorem Relisted.directory (h : tree.Relisted other) (p : Path) : other.directory p = tree.directory p :=
  directory_congr (h.get? hplaces) h.workdir p

end

theorem Relisted.mem_directories {tree other : Tree} (h : tree.Relisted other) {place : Place} :
    place ∈ other.directories ↔ place ∈ tree.directories := by
  simp only [directories, List.mem_cons, List.mem_map, List.mem_filter, h.nodes.mem_iff]

theorem Relisted.entries {tree other : Tree} (h : tree.Relisted other) (place : Place) :
    (other.entries place).Perm (tree.entries place) :=
  h.nodes.filterMap _

/-- The same tree with some places listed before the others. -/
def front (chosen : List Place) (tree : Tree) : Tree :=
  { tree with
    nodes := tree.nodes.filter (fun n => chosen.contains n.1) ++
      tree.nodes.filter fun n => !chosen.contains n.1 }

theorem relisted_front (chosen : List Place) (tree : Tree) : tree.Relisted (tree.front chosen) :=
  ⟨List.filter_append_perm _ _, rfl⟩

/-- A directory lists first what was chosen in it. -/
theorem head?_entries_front {tree : Tree} {chosen : List Place} {place : Place} {name : Name}
    (hname : name ∈ tree.entries place) (hchosen : ∀ other, place ++ [other] ∈ chosen ↔ other = name) :
    ((tree.front chosen).entries place).head? = some name := by
  have hentries : (tree.front chosen).entries place =
      ((tree.nodes.filter fun n => chosen.contains n.1).map Prod.fst).filterMap (nameIn? place) ++
      ((tree.nodes.filter fun n => !chosen.contains n.1).map Prod.fst).filterMap (nameIn? place) := by
    rw [entries_eq, front, List.map_append, List.filterMap_append]
  generalize hfirst : ((tree.nodes.filter fun n => chosen.contains n.1).map Prod.fst).filterMap
    (nameIn? place) = first at hentries
  have hmem : ∀ other, other ∈ first ↔ other = name := by
    intro other
    rw [← hfirst, ← hchosen]
    constructor
    · intro h
      obtain ⟨p, hp, hother⟩ := List.mem_filterMap.mp h
      obtain ⟨n, hn, rfl⟩ := List.mem_map.mp hp
      rw [← nameIn?_eq_some_iff.mp hother]
      exact List.contains_iff_mem.mp (List.mem_filter.mp hn).2
    · intro h
      obtain rfl := (hchosen other).mp h
      obtain ⟨n, hn, hplace⟩ := List.mem_map.mp (mem_entries.mp hname)
      refine List.mem_filterMap.mpr ⟨n.1, List.mem_map_of_mem (List.mem_filter.mpr ⟨hn, ?_⟩), ?_⟩
      · rw [hplace]
        exact List.contains_iff_mem.mpr h
      · exact nameIn?_eq_some_iff.mpr hplace
  rw [hentries]
  cases first with
  | nil => cases (hmem name).mpr rfl
  | cons head rest =>
    rw [(hmem head).mp List.mem_cons_self]
    rfl

/-! ### The order of paths -/

theorem pairwise_mergeSort_names (files : List (List Name)) :
    (files.mergeSort fun a b => a ≤ b).Pairwise (· ≤ ·) := by
  have htrans : ∀ a b c : List Name, decide (a ≤ b) = true → decide (b ≤ c) = true →
      decide (a ≤ c) = true := by
    intro a b c hab hbc
    rw [decide_eq_true_iff] at hab hbc ⊢
    exact List.le_trans hab hbc
  have htotal : ∀ a b : List Name, (decide (a ≤ b) || decide (b ≤ a)) = true := by
    intro a b
    rw [Bool.or_eq_true, decide_eq_true_iff, decide_eq_true_iff]
    exact List.le_total a b
  exact (List.pairwise_mergeSort htrans htotal files).imp of_decide_eq_true

/-- Sorted by their paths, the same files come in one order. -/
theorem mergeSort_eq_of_perm {files others : List (List Name)} (h : files.Perm others) :
    (files.mergeSort fun a b => a ≤ b) = others.mergeSort fun a b => a ≤ b := by
  refine List.Perm.eq_of_pairwise (fun a b _ _ => List.le_antisymm) (pairwise_mergeSort_names files)
    (pairwise_mergeSort_names others) ?_
  exact ((List.mergeSort_perm _ _).trans h).trans (List.mergeSort_perm _ _).symm

end TemplateDocs.Files.Tree
