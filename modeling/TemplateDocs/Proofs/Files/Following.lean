import Mathlib
import TemplateDocs.Proofs.Files.Relisting

/-!
# Where paths lead

`Leads` states step by step how a path leads from one directory to another. It says how many links
may still be followed afterwards, so that a longer path can be cut where a directory is reached and
its rest followed from there.
-/
namespace TemplateDocs.Files.Tree

/-- A name that something in a directory can have. -/
structure ProperName (name : Name) : Prop where
  ne_nil : name ≠ []
  ne_here : name ≠ dot
  ne_parent : name ≠ dotDot
  no_slash : slash ∉ name
  no_zero : 0 ∉ name

/-- What every file system sees to: at a place there is one thing, everything stands in a directory,
names are proper, and the working directory is there. -/
structure WellFormed (tree : Tree) : Prop where
  distinct : tree.DistinctPlaces
  proper : ∀ place ∈ tree.nodes.map Prod.fst, ∀ name ∈ place, ProperName name
  parent : ∀ place ∈ tree.nodes.map Prod.fst, place.dropLast ∈ tree.directories
  workdir : tree.workdir ∈ tree.directories

instance (name : Name) : Decidable (ProperName name) :=
  decidable_of_iff (name ≠ [] ∧ name ≠ dot ∧ name ≠ dotDot ∧ slash ∉ name ∧ 0 ∉ name)
    ⟨fun h => ⟨h.1, h.2.1, h.2.2.1, h.2.2.2.1, h.2.2.2.2⟩, fun h => ⟨h.1, h.2, h.3, h.4, h.5⟩⟩

instance (tree : Tree) : Decidable tree.WellFormed :=
  decidable_of_iff ((tree.nodes.map Prod.fst).Nodup ∧
      (∀ place ∈ tree.nodes.map Prod.fst, ∀ name ∈ place, ProperName name) ∧
      (∀ place ∈ tree.nodes.map Prod.fst, tree.directories.contains place.dropLast) ∧
      tree.directories.contains tree.workdir)
    ⟨fun h => ⟨h.1, h.2.1, fun p hp => List.contains_iff_mem.mp (h.2.2.1 p hp),
      List.contains_iff_mem.mp h.2.2.2⟩,
    fun h => ⟨h.1, h.2, fun p hp => List.contains_iff_mem.mpr (h.3 p hp),
      List.contains_iff_mem.mpr h.4⟩⟩

/-- Steps that lead from the directory at one place to the directory at another. The numbers say how
many links may be followed before and after. -/
inductive Leads (tree : Tree) : Nat → Place → List Name → Nat → Place → Prop
  | arrived {links : Nat} {here : Place} : Leads tree links here [] links here
  | stay {links left : Nat} {here place : Place} {rest : List Name}
      (h : Leads tree links here rest left place) : Leads tree links here (dot :: rest) left place
  | up {links left : Nat} {here place : Place} {rest : List Name}
      (h : Leads tree links here.dropLast rest left place) :
      Leads tree links here (dotDot :: rest) left place
  | down {links left : Nat} {here place : Place} {step : Name} {rest : List Name}
      (hname : step ≠ dot ∧ step ≠ dotDot) (hshort : step.length ≤ nameLimit)
      (hget : tree.get? (here ++ [step]) = some .directory)
      (h : Leads tree links (here ++ [step]) rest left place) :
      Leads tree links here (step :: rest) left place
  | link {links left : Nat} {here place : Place} {step : Name} {rest : List Name} {target : Path}
      (hname : step ≠ dot ∧ step ≠ dotDot) (hshort : step.length ≤ nameLimit)
      (hget : tree.get? (here ++ [step]) = some (.link target))
      (h : Leads tree links (if Path.isAbsolute target then [] else here) (steps target ++ rest)
        left place) :
      Leads tree (links + 1) here (step :: rest) left place

section

variable {tree : Tree} {links left : Nat} {here place : Place} {todo : List Name}

theorem Leads.follow (h : tree.Leads links here todo left place) :
    tree.follow true links here todo = .ok (.present place .directory) := by
  induction h with
  | arrived => rw [Tree.follow]
  | stay _ ih => rw [Tree.follow, if_pos rfl, ih]
  | up _ ih => rw [Tree.follow, if_neg (by decide), if_pos rfl, ih]
  | down hname hshort hget _ ih =>
    rw [Tree.follow, if_neg hname.1, if_neg hname.2, if_neg (Nat.not_lt.mpr hshort)]
    simp only [hget, ih]
  | link hname hshort hget _ ih =>
    rw [Tree.follow, if_neg hname.1, if_neg hname.2, if_neg (Nat.not_lt.mpr hshort)]
    simp only [hget, Bool.not_true, Bool.false_eq_true, and_false, if_false, ih]

theorem exists_leads {last : Bool}
    (h : tree.follow last links here todo = .ok (.present place .directory)) :
    ∃ left, tree.Leads links here todo left place := by
  fun_induction Tree.follow tree last links here todo with
  | case1 links here =>
    rw [Except.ok.injEq, Target.present.injEq] at h
    exact ⟨links, h.1 ▸ .arrived⟩
  | case2 links here rest ih =>
    obtain ⟨left, hleads⟩ := ih h
    exact ⟨left, .stay hleads⟩
  | case3 links here rest _ ih =>
    obtain ⟨left, hleads⟩ := ih h
    exact ⟨left, .up hleads⟩
  | case7 links here step rest hhere hparent hshort _ hget ih =>
    obtain ⟨left, hleads⟩ := ih h
    exact ⟨left, .down ⟨hhere, hparent⟩ (Nat.not_lt.mp hshort) hget hleads⟩
  | case12 here step rest hhere hparent hshort _ target hget _ links ih =>
    obtain ⟨left, hleads⟩ := ih h
    exact ⟨left, .link ⟨hhere, hparent⟩ (Nat.not_lt.mp hshort) hget hleads⟩
  | _ => simp at h

/-- A path can be cut anywhere. -/
theorem Leads.split {front rest : List Name} (h : tree.Leads links here (front ++ rest) left place) :
    ∃ between mid, tree.Leads links here front between mid ∧ tree.Leads between mid rest left place := by
  generalize htodo : front ++ rest = todo at h
  induction h generalizing front with
  | @arrived links here =>
    obtain ⟨rfl, rfl⟩ := List.append_eq_nil_iff.mp htodo
    exact ⟨links, here, .arrived, .arrived⟩
  | @stay links left here place todo h ih =>
    cases front with
    | nil => exact ⟨links, here, .arrived, by subst htodo; exact .stay h⟩
    | cons step front =>
      rw [List.cons_append, List.cons.injEq] at htodo
      obtain ⟨rfl, hrest⟩ := htodo
      obtain ⟨between, mid, hfront, hback⟩ := ih hrest
      exact ⟨between, mid, .stay hfront, hback⟩
  | @up links left here place todo h ih =>
    cases front with
    | nil => exact ⟨links, here, .arrived, by subst htodo; exact .up h⟩
    | cons step front =>
      rw [List.cons_append, List.cons.injEq] at htodo
      obtain ⟨rfl, hrest⟩ := htodo
      obtain ⟨between, mid, hfront, hback⟩ := ih hrest
      exact ⟨between, mid, .up hfront, hback⟩
  | @down links left here place step todo hname hshort hget h ih =>
    cases front with
    | nil => exact ⟨links, here, .arrived, by subst htodo; exact .down hname hshort hget h⟩
    | cons step front =>
      rw [List.cons_append, List.cons.injEq] at htodo
      obtain ⟨rfl, hrest⟩ := htodo
      obtain ⟨between, mid, hfront, hback⟩ := ih hrest
      exact ⟨between, mid, .down hname hshort hget hfront, hback⟩
  | @link links left here place step todo target hname hshort hget h ih =>
    cases front with
    | nil => exact ⟨links + 1, here, .arrived, by subst htodo; exact .link hname hshort hget h⟩
    | cons step front =>
      rw [List.cons_append, List.cons.injEq] at htodo
      obtain ⟨rfl, hrest⟩ := htodo
      have hsteps : (steps target ++ front) ++ rest = steps target ++ todo := by
        rw [← hrest, List.append_assoc]
      obtain ⟨between, mid, hfront, hback⟩ := ih hsteps
      exact ⟨between, mid, .link hname hshort hget hfront, hback⟩

theorem Leads.append {between : Nat} {mid : Place} {front rest : List Name}
    (h : tree.Leads links here front between mid) (hrest : tree.Leads between mid rest left place) :
    tree.Leads links here (front ++ rest) left place := by
  induction h with
  | arrived => exact hrest
  | stay _ ih => exact .stay (ih hrest)
  | up _ ih => exact .up (ih hrest)
  | down hname hshort hget _ ih => exact .down hname hshort hget (ih hrest)
  | link hname hshort hget _ ih =>
    rw [List.append_assoc] at ih
    exact .link hname hshort hget (ih hrest)

/-- No step of a path that leads anywhere is too long. -/
theorem Leads.short (h : tree.Leads links here todo left place) :
    ∀ step ∈ todo, step.length ≤ nameLimit := by
  induction h with
  | arrived => nofun
  | stay _ ih => exact List.forall_mem_cons.mpr ⟨by decide, ih⟩
  | up _ ih => exact List.forall_mem_cons.mpr ⟨by decide, ih⟩
  | down _ hshort _ _ ih => exact List.forall_mem_cons.mpr ⟨hshort, ih⟩
  | link _ hshort _ _ ih =>
    exact List.forall_mem_cons.mpr ⟨hshort, fun step hstep => ih step (List.mem_append_right _ hstep)⟩

theorem mem_directories_iff (hplaces : tree.DistinctPlaces) :
    place ∈ tree.directories ↔ tree.get? place = some .directory := by
  by_cases hplace : place = []
  · subst hplace
    simp [directories, get?]
  · rw [get?_eq_some_iff hplaces hplace]
    simp [directories, hplace]

theorem WellFormed.mem_of_get? (hw : tree.WellFormed) (h : tree.get? place = some .directory) :
    place ∈ tree.directories := (mem_directories_iff hw.distinct).mpr h

theorem mem_places_of_mem_directories (h : place ∈ tree.directories) (hne : place ≠ []) :
    place ∈ tree.nodes.map Prod.fst := by
  obtain ⟨n, hn, hplace⟩ := List.mem_map.mp ((List.mem_cons.mp h).resolve_left hne)
  exact hplace ▸ List.mem_map_of_mem (List.mem_filter.mp hn).1

theorem WellFormed.dropLast_mem (hw : tree.WellFormed) (h : here ∈ tree.directories) :
    here.dropLast ∈ tree.directories := by
  by_cases hhere : here = []
  · rwa [hhere] at h ⊢
  · exact hw.parent here (mem_places_of_mem_directories h hhere)

theorem Leads.mem_directories (hw : tree.WellFormed) (h : tree.Leads links here todo left place)
    (hhere : here ∈ tree.directories) : place ∈ tree.directories := by
  induction h with
  | arrived => exact hhere
  | stay _ ih => exact ih hhere
  | up _ ih => exact ih (hw.dropLast_mem hhere)
  | down _ _ hget _ ih => exact ih (hw.mem_of_get? hget)
  | link _ _ _ _ ih =>
    apply ih
    split_ifs
    · exact List.mem_cons_self
    · exact hhere

/-! ### Paths of names below a root -/

/-- The pieces of a path that name something. -/
def pieces (p : Path) : List Name := (Text.split slash p).filter fun piece => !piece.isEmpty

/-- The slash at the end of a path makes no difference to a directory. -/
theorem leads_steps_iff {p : Path} :
    tree.Leads links here (steps p) left place ↔ tree.Leads links here (pieces p) left place := by
  unfold steps
  change tree.Leads links here (if (pieces p).isEmpty ∨ p.getLast? ≠ some slash then pieces p
    else pieces p ++ [dot]) left place ↔ _
  split_ifs with h
  · rfl
  · constructor
    · intro hleads
      obtain ⟨between, mid, hfront, hback⟩ := hleads.split
      cases hback with
      | stay hback =>
        cases hback
        exact hfront
      | down hname => exact absurd rfl hname.1
      | link hname => exact absurd rfl hname.1
    · intro hleads
      exact hleads.append (.stay .arrived)

/-- Where a path starts. -/
def base (tree : Tree) (p : Path) : Place := if Path.isAbsolute p then [] else tree.workdir

/-- The system takes the path, wherever it leads. -/
structure Accepted (p : Path) : Prop where
  ne_nil : p ≠ []
  no_zero : 0 ∉ p
  short : p.length < pathLimit

theorem directory_eq_ok_iff_locate {p : Path} :
    tree.directory p = .ok place ↔ tree.locate true p = .ok (.present place .directory) := by
  unfold directory resolve
  cases tree.locate true p with
  | error fault => simp
  | ok target =>
    cases target with
    | absent q => simp
    | present q node => cases node <;> simp

theorem directory_eq_ok_iff {p : Path} : tree.directory p = .ok place ↔
    Accepted p ∧ ∃ left, tree.Leads linkLimit (tree.base p) (pieces p) left place := by
  rw [directory_eq_ok_iff_locate, locate, ← base]
  constructor
  · intro h
    split_ifs at h with hzero hempty hlong
    have hzero : 0 ∉ p := fun hmem => hzero (List.any_eq_true.mpr ⟨_, hmem, by simp⟩)
    refine ⟨⟨by simpa using hempty, hzero, Nat.not_le.mp hlong⟩, ?_⟩
    obtain ⟨left, hleads⟩ := exists_leads h
    exact ⟨left, leads_steps_iff.mp hleads⟩
  · rintro ⟨haccepted, left, hleads⟩
    have hzero : ¬ p.any (· = 0) = true := by
      rw [List.any_eq_true]
      rintro ⟨c, hc, heq⟩
      exact haccepted.no_zero (by simpa [of_decide_eq_true heq] using hc)
    rw [if_neg hzero, if_neg (by simpa using haccepted.ne_nil),
      if_neg (Nat.not_le.mpr haccepted.short)]
    exact (leads_steps_iff.mpr hleads).follow

theorem WellFormed.directory_mem (hw : tree.WellFormed) {p : Path} (h : tree.directory p = .ok place) :
    place ∈ tree.directories := by
  obtain ⟨-, left, hleads⟩ := directory_eq_ok_iff.mp h
  refine hleads.mem_directories hw ?_
  unfold base
  split_ifs
  · exact List.mem_cons_self
  · exact hw.workdir

theorem pieces_append_cons (p q : Path) : pieces (p ++ slash :: q) = pieces p ++ pieces q := by
  unfold pieces
  rw [Text.split_eq_splitOn, List.splitOn_append_cons_self, List.filter_append,
    Text.split_eq_splitOn, Text.split_eq_splitOn]

theorem pieces_namesPath {names : List Name} (hne : names ≠ []) (h : ∀ name ∈ names, ProperName name) :
    pieces (namesPath names) = names := by
  have hsplit : Text.split slash (namesPath names) = names := by
    rw [Text.split_eq_splitOn]
    exact List.splitOn_intercalate slash (fun name hname => (h name hname).no_slash) hne
  rw [pieces, hsplit]
  refine List.filter_eq_self.mpr fun name hname => ?_
  simpa using (h name hname).ne_nil

theorem isAbsolute_namesPath {names : List Name} (h : ∀ name ∈ names, ProperName name) :
    Path.isAbsolute (namesPath names) = false := by
  cases names with
  | nil => rfl
  | cons name names =>
    have hname := h name List.mem_cons_self
    cases hn : name with
    | nil => exact absurd hn hname.ne_nil
    | cons c rest =>
      have hc : c ≠ slash := fun heq => hname.no_slash (by simp [hn, heq])
      cases names <;> simp [namesPath, Text.join, Path.isAbsolute, hc]

/-- The path of names below a root goes on where the path of the root ends. -/
theorem pieces_append {root : Path} {names : List Name} (hroot : root ≠ []) (hne : names ≠ [])
    (h : ∀ name ∈ names, ProperName name) :
    pieces (Path.append root (namesPath names)) = pieces root ++ names := by
  rw [Path.append, isAbsolute_namesPath h]
  simp only [List.isEmpty_iff, hroot, Bool.false_eq_true, or_self, if_false]
  split_ifs with hlast
  · obtain ⟨front, rfl⟩ := List.getLast?_eq_some_iff.mp hlast
    rw [List.append_assoc, List.singleton_append, pieces_append_cons, pieces_append_cons,
      pieces_namesPath hne h]
    simp [pieces, Text.split]
  · rw [pieces_append_cons, pieces_namesPath hne h]

theorem base_append {root : Path} {names : List Name} (hroot : root ≠ [])
    (h : ∀ name ∈ names, ProperName name) :
    tree.base (Path.append root (namesPath names)) = tree.base root := by
  unfold base Path.append
  rw [isAbsolute_namesPath h]
  simp only [List.isEmpty_iff, hroot, Bool.false_eq_true, or_self, if_false]
  cases root with
  | nil => exact absurd rfl hroot
  | cons c root => split_ifs <;> simp_all [Path.isAbsolute]

theorem mem_namesPath {names : List Name} {b : UInt8} (h : b ∈ namesPath names) :
    b = slash ∨ ∃ name ∈ names, b ∈ name := by
  induction names with
  | nil => simp [namesPath, Text.join] at h
  | cons name names ih =>
    cases names with
    | nil => exact .inr ⟨name, List.mem_singleton_self _, by simpa [namesPath, Text.join] using h⟩
    | cons next names =>
      rw [namesPath, Text.join_cons_cons] at h
      simp only [List.mem_append, List.mem_singleton] at h
      rcases h with h | h | h
      · exact .inr ⟨name, List.mem_cons_self, h⟩
      · exact .inl h
      · rcases ih h with hslash | ⟨n, hn, hb⟩
        · exact .inl hslash
        · exact .inr ⟨n, List.mem_cons_of_mem _ hn, hb⟩

theorem accepted_append {root : Path} {names : List Name} (hroot : Accepted root)
    (h : ∀ name ∈ names, ProperName name)
    (hshort : (Path.append root (namesPath names)).length < pathLimit) :
    Accepted (Path.append root (namesPath names)) := by
  have hzero : 0 ∉ namesPath names := by
    intro hmem
    rcases mem_namesPath hmem with hslash | ⟨name, hname, hb⟩
    · cases hslash
    · exact (h name hname).no_zero hb
  refine ⟨?_, ?_, hshort⟩
  all_goals
    rw [Path.append, isAbsolute_namesPath h]
    simp only [List.isEmpty_iff, hroot.ne_nil, Bool.false_eq_true, or_self, if_false]
    split_ifs
  · simp [hroot.ne_nil]
  · simp
  · simp [hroot.no_zero, hzero]
  · simp [hroot.no_zero, hzero, slash]

/-- Names below a root lead to a directory, whether or not the system takes their path. -/
def Reaches (tree : Tree) (root : Path) (names : List Name) (place : Place) : Prop :=
  ∃ left, tree.Leads linkLimit (tree.base root) (pieces root ++ names) left place

theorem reaches_root {root : Path} (h : tree.directory root = .ok place) : tree.Reaches root [] place := by
  obtain ⟨-, left, hleads⟩ := directory_eq_ok_iff.mp h
  exact ⟨left, by rwa [List.append_nil]⟩

theorem directory_append_iff {root : Path} {names : List Name} (hroot : root ≠ []) (hne : names ≠ [])
    (h : ∀ name ∈ names, ProperName name) :
    tree.directory (Path.append root (namesPath names)) = .ok place ↔
      Accepted (Path.append root (namesPath names)) ∧ tree.Reaches root names place := by
  rw [directory_eq_ok_iff, base_append hroot h, pieces_append hroot hne h]
  rfl

theorem Reaches.unique {root : Path} {names : List Name} {other : Place}
    (h : tree.Reaches root names place) (h' : tree.Reaches root names other) : place = other := by
  obtain ⟨_, hleads⟩ := h
  obtain ⟨_, hleads'⟩ := h'
  have hsame := hleads.follow.symm.trans hleads'.follow
  simpa using hsame

theorem Reaches.concat {root : Path} {names : List Name} {name : Name}
    (h : tree.Reaches root names here) (hname : ProperName name)
    (hshort : name.length ≤ nameLimit)
    (hget : tree.get? (here ++ [name]) = some .directory) :
    tree.Reaches root (names ++ [name]) (here ++ [name]) := by
  obtain ⟨left, hleads⟩ := h
  refine ⟨left, ?_⟩
  rw [← List.append_assoc]
  exact hleads.append (.down ⟨hname.ne_here, hname.ne_parent⟩ hshort hget .arrived)

/-- The last name is that of a directory, or of a link. -/
theorem Reaches.last {root : Path} {names : List Name} {name : Name}
    (h : tree.Reaches root (names ++ [name]) place) (hname : ProperName name) :
    ∃ here, tree.Reaches root names here ∧
      (place = here ++ [name] ∧ tree.get? (here ++ [name]) = some .directory ∨
        ∃ target, tree.get? (here ++ [name]) = some (.link target)) := by
  obtain ⟨left, hleads⟩ := h
  rw [← List.append_assoc] at hleads
  obtain ⟨between, here, hfront, hlast⟩ := hleads.split
  refine ⟨here, ⟨between, hfront⟩, ?_⟩
  cases hlast with
  | stay => exact absurd rfl hname.ne_here
  | up => exact absurd rfl hname.ne_parent
  | down _ _ hget hrest =>
    cases hrest
    exact .inl ⟨rfl, hget⟩
  | link _ _ hget _ => exact .inr ⟨_, hget⟩

end

end TemplateDocs.Files.Tree
