import Mathlib
import TemplateDocs.Proofs.Text
import TemplateDocs.Variant

/-!
# Linked sources stand alone

A variant is put after the declarations that a depth-first visit of its calls finds. What counts is
the text that comes out: scanned again, line by line, it declares every mixin of the file that it
calls, so linking it once more adds nothing.
-/
namespace TemplateDocs

namespace Text

theorem split_ne_nil (sep : Char) (t : Text) : split sep t ≠ [] := by
  rw [split_eq_splitOn]
  exact List.splitOn_ne_nil sep t

/-- A scan of lines that does not see where a line ends can take the pieces between line feeds. -/
theorem flatMap_feedLines {α : Type} {f : Text → List α} (hempty : f [] = [])
    (hreturn : ∀ line, f (line ++ ['\r']) = f line) (t : Text) :
    (feedLines t).flatMap f = (split '\n' t).flatMap f := by
  have hended : ∀ pieces : List Text, (pieces.map fun line =>
      if line.getLast? = some '\r' then line.dropLast else line).flatMap f = pieces.flatMap f := by
    intro pieces
    induction pieces with
    | nil => rfl
    | cons line pieces ih =>
      rw [List.map_cons, List.flatMap_cons, List.flatMap_cons, ih]
      split_ifs with h
      · rw [← hreturn, List.dropLast_append_getLast? '\r' h]
      · rfl
  obtain ⟨front, last, hsplit⟩ :=
    (List.eq_nil_or_concat (split '\n' t)).resolve_left (split_ne_nil '\n' t)
  rw [List.concat_eq_append] at hsplit
  rw [feedLines, hsplit]
  simp only [List.dropLast_concat, List.getLast?_concat]
  cases last with
  | nil => simp [hended, hempty]
  | cons c last => simp [hended]

end Text

namespace Lines

theorem split_toText_flatMap {ts : List Text} (h : ts ≠ []) :
    Text.split '\n' (toText ts) = ts.flatMap (Text.split '\n') := by
  induction ts with
  | nil => exact absurd rfl h
  | cons t ts ih =>
    cases ts with
    | nil => simp [toText, Text.join]
    | cons t' ts =>
      have hcut := split_toText_append (Text.split_ne_nil '\n' t)
        (fun l hl => Text.not_mem_of_mem_split hl) (toText (t' :: ts))
      rw [toText_split] at hcut
      rw [toText_cons_cons, hcut, ih (by simp)]
      rfl

theorem drop_indent (line : Text) : line.drop (indent line) = Text.trimStart line := by
  have h : (margin line ++ Text.trimStart line).drop (margin line).length = Text.trimStart line :=
    List.drop_left
  rwa [margin_append_trimStart] at h

theorem ofText_flat {t l : Text} (h : l ∈ ofText t) : '\n' ∉ l := by
  cases t with
  | nil => cases h
  | cons c t => exact Text.not_mem_of_mem_split h

theorem exists_dropBlankEnd_cons {l : Text} (hl : isBlank l = false) (ls : Lines) :
    ∃ rest, dropBlankEnd (l :: ls) = l :: rest := by
  rw [dropBlankEnd, List.reverse_cons, List.dropWhile_append]
  split_ifs with h
  · exact ⟨[], by simp [hl]⟩
  · exact ⟨(ls.reverse.dropWhile isBlank).reverse, by simp⟩

end Lines

namespace Mixin

open Text (trimStart split)

/-! ### Names on a line -/

theorem isNameChar_return : isNameChar '\r' = false := by decide +kernel

theorem takeWhile_return (t : Text) :
    (t ++ ['\r']).takeWhile isNameChar = t.takeWhile isNameChar := by
  induction t with
  | nil => simp [isNameChar_return]
  | cons c t ih =>
    by_cases hc : isNameChar c = true
    · simp [hc, ih]
    · simp [hc]

theorem callsAfter_return (last : Option Char) (line : Text) :
    callsAfter last (line ++ ['\r']) = callsAfter last line := by
  induction line generalizing last with
  | nil => rfl
  | cons c line ih => simp only [List.cons_append, callsAfter, takeWhile_return, ih]

/-- A line declares a name if the word `mixin` and blanks stand before it. -/
theorem declaredName?_eq_some_iff {line name : Text} :
    declaredName? line = some name ↔ name ≠ [] ∧ ∃ rest, trimStart line = "mixin ".toList ++ rest ∧
      (rest.dropWhile (· = ' ')).takeWhile isNameChar = name := by
  unfold declaredName?
  constructor
  · intro h
    split at h
    · next rest hrest =>
      rw [Text.after?_eq_some_iff] at hrest
      dsimp only at h
      split_ifs at h with hname
      cases h
      exact ⟨by simpa using hname, rest, hrest, rfl⟩
    · cases h
  · rintro ⟨hne, rest, hrest, rfl⟩
    have hafter : Text.after? "mixin".toList (trimStart line) = some (' ' :: rest) := by
      rw [Text.after?_eq_some_iff, hrest]
      rfl
    rw [hafter]
    simp [hne]

theorem declaredName?_trimStart (line : Text) : declaredName? (trimStart line) = declaredName? line := by
  have hidem : trimStart (trimStart line) = trimStart line := by
    apply Text.trimStart_of_head
    exact Text.head_trimStart line
  rw [declaredName?, hidem, declaredName?]

theorem isBlank_of_declaredName? {line name : Text} (h : declaredName? line = some name) :
    Lines.isBlank line = false := by
  obtain ⟨-, rest, hrest, -⟩ := declaredName?_eq_some_iff.mp h
  rw [← Lines.margin_append_trimStart line, Lines.isBlank_append (Lines.margin_space line), hrest]
  rfl

theorem nameAfter_return (rest : Text) :
    ((rest ++ ['\r']).dropWhile (· = ' ')).takeWhile isNameChar =
      (rest.dropWhile (· = ' ')).takeWhile isNameChar := by
  induction rest with
  | nil => simp [isNameChar_return]
  | cons c rest ih =>
    by_cases hc : c = ' '
    · simpa [hc] using ih
    · simpa [hc] using takeWhile_return (c :: rest)

theorem declaredName?_return (line : Text) :
    declaredName? (line ++ ['\r']) = declaredName? line := by
  have htrim : trimStart (line ++ ['\r']) =
      if (trimStart line).isEmpty then [] else trimStart line ++ ['\r'] := List.dropWhile_append
  apply Option.ext
  intro name
  rw [declaredName?_eq_some_iff, declaredName?_eq_some_iff, htrim]
  refine and_congr_right fun _ => ?_
  split_ifs with hempty
  · rw [List.isEmpty_iff.mp hempty]
  constructor
  · rintro ⟨rest, hrest, hname⟩
    rcases List.eq_nil_or_concat rest with rfl | ⟨front, c, rfl⟩
    · have := congrArg List.getLast? hrest
      simp at this
    · rw [List.concat_eq_append, ← List.append_assoc] at hrest
      obtain ⟨hfront, hlast⟩ := List.append_inj' hrest rfl
      cases hlast
      rw [List.concat_eq_append, nameAfter_return] at hname
      exact ⟨front, hfront, hname⟩
  · rintro ⟨rest, hrest, rfl⟩
    exact ⟨rest ++ ['\r'], by rw [hrest, List.append_assoc], nameAfter_return rest⟩

/-! ### Names of a source -/

theorem mem_calls_iff {name source : Text} :
    name ∈ calls source ↔ ∃ line ∈ split '\n' source, name ∈ callsAfter none line := by
  rw [calls, List.mem_eraseDups, Text.flatMap_feedLines rfl (callsAfter_return none),
    List.mem_flatMap]

theorem mem_declaredNames_iff {name source : Text} :
    name ∈ declaredNames source ↔ ∃ line ∈ split '\n' source, declaredName? line = some name := by
  have hscan := @Text.flatMap_feedLines _ (fun line => (declaredName? line).toList) rfl
    (fun line => by rw [declaredName?_return]) source
  rw [declaredNames, List.filterMap_eq_flatMap_toList, hscan, List.mem_flatMap]
  simp only [Option.mem_toList]

variable {ts : List Text} {name : Text}

theorem mem_calls_toText (h : ts ≠ []) : name ∈ calls (Lines.toText ts) ↔ ∃ t ∈ ts, name ∈ calls t := by
  simp only [mem_calls_iff, Lines.split_toText_flatMap h, List.mem_flatMap]
  tauto

theorem mem_declaredNames_toText (h : ts ≠ []) :
    name ∈ declaredNames (Lines.toText ts) ↔ ∃ t ∈ ts, name ∈ declaredNames t := by
  simp only [mem_declaredNames_iff, Lines.split_toText_flatMap h, List.mem_flatMap]
  tauto

/-! ### The table of a file -/

theorem firsts_subset (ms : List Mixin) : firsts ms ⊆ ms := by
  induction ms with
  | nil => exact List.Subset.refl _
  | cons m ms ih =>
    rw [firsts]
    apply List.cons_subset_cons
    exact fun m' hm' => ih (List.mem_filter.mp hm').1

theorem exists_mem_firsts {ms : List Mixin} {m : Mixin} (h : m ∈ ms) :
    ∃ m' ∈ firsts ms, m'.name = m.name := by
  induction ms with
  | nil => cases h
  | cons first ms ih =>
    rw [firsts]
    by_cases hname : first.name = m.name
    · exact ⟨first, List.mem_cons_self, hname⟩
    · have hm : m ∈ ms := by
        rcases List.mem_cons.mp h with rfl | hm
        · exact absurd rfl hname
        · exact hm
      obtain ⟨m', hm', heq⟩ := ih hm
      refine ⟨m', List.mem_cons_of_mem _ ?_, heq⟩
      rw [without, List.mem_filter]
      exact ⟨hm', by simpa [heq] using Ne.symm hname⟩

/-- Every mixin of a file is that of one of its lines and the lines after it. -/
theorem mem_declarations_iff {ls : Lines} {m : Mixin} :
    m ∈ declarations ls ↔ ∃ head rest, head :: rest <:+ ls ∧ ofHead? head rest = some m := by
  induction ls with
  | nil => simp [declarations]
  | cons l ls ih =>
    rw [declarations, List.mem_append, Option.mem_toList, ih]
    constructor
    · rintro (h | ⟨head, rest, hsuffix, h⟩)
      · exact ⟨l, ls, List.suffix_refl _, h⟩
      · exact ⟨head, rest, hsuffix.trans (List.suffix_cons l ls), h⟩
    · rintro ⟨head, rest, hsuffix, h⟩
      rcases List.suffix_cons_iff.mp hsuffix with heq | hsuffix
      · cases heq
        exact .inl h
      · exact .inr ⟨head, rest, hsuffix, h⟩

theorem exists_mem_table {ls : Lines} {line name : Text} (hline : line ∈ ls)
    (hname : declaredName? line = some name) : ∃ m ∈ table ls, m.name = name := by
  obtain ⟨front, rest, rfl⟩ := List.append_of_mem hline
  have hm : ∃ m ∈ declarations (front ++ line :: rest), m.name = name := by
    simp only [mem_declarations_iff]
    exact ⟨_, ⟨line, rest, List.suffix_append _ _, by rw [ofHead?, hname]; rfl⟩, rfl⟩
  obtain ⟨m, hm, rfl⟩ := hm
  exact exists_mem_firsts hm

/-- The first line of a declaration declares the mixin's name. -/
theorem declaredName?_head {ls : Lines} (hflat : ∀ l ∈ ls, '\n' ∉ l) {m : Mixin} (h : m ∈ table ls) :
    ∃ line rest, split '\n' m.declaration = line :: rest ∧ declaredName? line = some m.name := by
  obtain ⟨head, rest, hsuffix, hm⟩ := mem_declarations_iff.mp (firsts_subset _ h)
  obtain ⟨name, hname, rfl⟩ := Option.map_eq_some_iff.mp hm
  obtain ⟨body, hbody⟩ := Lines.exists_dropBlankEnd_cons (isBlank_of_declaredName? hname)
    (Lines.scope (Lines.indent head) rest)
  have hhead : Lines.dedentLine (Lines.indent head) head = trimStart head := by
    rw [Lines.dedentLine, Nat.min_self, Lines.drop_indent]
  have hline : '\n' ∉ trimStart head := by
    have := hflat head (hsuffix.subset List.mem_cons_self)
    exact fun hmem => this ((List.dropWhile_suffix _).subset hmem)
  have hsplit : split '\n' (trimStart head) = [trimStart head] := by
    have := Lines.split_toText (List.cons_ne_nil (trimStart head) []) (by simpa using hline)
    rwa [Lines.toText, Text.join, List.intercalate_singleton] at this
  refine ⟨trimStart head, (Lines.dedent (Lines.indent head) body).flatMap (split '\n'), ?_, ?_⟩
  · dsimp only
    rw [hbody, Lines.dedent, List.map_cons, hhead, Lines.split_toText_flatMap (by simp),
      List.flatMap_cons, hsplit]
    rfl
  · rw [declaredName?_trimStart, hname]

theorem name_mem_declaredNames {ls : Lines} (hflat : ∀ l ∈ ls, '\n' ∉ l) {m : Mixin}
    (h : m ∈ table ls) : m.name ∈ declaredNames m.declaration := by
  obtain ⟨line, rest, hsplit, hname⟩ := declaredName?_head hflat h
  exact mem_declaredNames_iff.mpr ⟨line, by simp [hsplit], hname⟩

/-! ### Visits -/

/-- How a visit of `names` goes when the mixins of `pending` are not in order yet: which of them are
left, and which are put in order. -/
inductive Visits : List Mixin → List Text → List Mixin → List Mixin → Prop
  | done {pending : List Mixin} : Visits pending [] pending []
  | skip {pending left ordered : List Mixin} {name : Text} {names : List Text}
      (h : ∀ m ∈ pending, m.name ≠ name) (hrest : Visits pending names left ordered) :
      Visits pending (name :: names) left ordered
  | take {pending mid left inner others : List Mixin} {m : Mixin} {names : List Text}
      (h : m ∈ pending) (hinner : Visits (without m.name pending) (calls m.declaration) mid inner)
      (hrest : Visits mid names left others) :
      Visits pending (m.name :: names) left (inner ++ m :: others)

theorem visits_visitAll (pending : List Mixin) (names : List Text) :
    Visits pending names (visitAll pending names).left (visitAll pending names).ordered := by
  -- one name is visited on behalf of any names that follow it
  refine visitAll.induct
    (fun pending name => ∀ names left others, Visits (visit pending name).left names left others →
      Visits pending (name :: names) left ((visit pending name).ordered ++ others))
    (fun pending names =>
      Visits pending names (visitAll pending names).left (visitAll pending names).ordered)
    ?_ ?_ ?_ ?_ pending names
  · intro pending name hfind names left others hrest
    have hvisit : visit pending name = ⟨pending, [], Nat.le_refl _⟩ := by
      rw [visit]
      split
      · rfl
      · next hm => simp [hfind] at hm
    rw [hvisit] at hrest ⊢
    refine .skip ?_ hrest
    simpa using hfind
  · intro pending name m hfind _ hinner names left others hrest
    have hvisit : (visit pending name).left =
          (visitAll (without m.name pending) (calls m.declaration)).left ∧
        (visit pending name).ordered =
          (visitAll (without m.name pending) (calls m.declaration)).ordered ++ [m] := by
      rw [visit]
      split
      · next hm => simp [hfind] at hm
      · next hm =>
        obtain rfl := Option.some.inj (hfind.symm.trans hm)
        exact ⟨rfl, rfl⟩
    have hname : m.name = name := by simpa using List.find?_some hfind
    rw [hvisit.1] at hrest
    rw [hvisit.2, List.append_assoc, List.singleton_append, ← hname]
    exact .take (List.mem_of_find?_eq_some hfind) hinner hrest
  · intro pending
    rw [visitAll]
    exact .done
  · intro pending name names left first shrinks hvisit hname hrest
    have hleft : (visit pending name).left = left := by rw [hvisit]
    rw [← hleft] at hrest
    rw [visitAll]
    exact hname names _ _ hrest

namespace Visits

variable {pending left ordered : List Mixin} {names : List Text}

theorem left_subset (h : Visits pending names left ordered) : left ⊆ pending := by
  induction h with
  | done => exact List.Subset.refl _
  | skip _ _ ih => exact ih
  | take _ _ _ ihinner ihrest =>
    exact fun m hm => (List.mem_filter.mp (ihinner (ihrest hm))).1

theorem ordered_subset (h : Visits pending names left ordered) : ordered ⊆ pending := by
  induction h with
  | done => exact List.nil_subset _
  | skip _ _ ih => exact ih
  | take hm hinner _ ihinner ihrest =>
    intro m' hm'
    rcases List.mem_append.mp hm' with hm' | hm'
    · exact (List.mem_filter.mp (ihinner hm')).1
    rcases List.mem_cons.mp hm' with rfl | hm'
    · exact hm
    · exact (List.mem_filter.mp (hinner.left_subset (ihrest hm'))).1

/-- A pending mixin is left or its name is put in order. -/
theorem covers (h : Visits pending names left ordered) :
    ∀ m ∈ pending, m ∈ left ∨ ∃ m' ∈ ordered, m'.name = m.name := by
  induction h with
  | done => exact fun m hm => .inl hm
  | skip _ _ ih => exact ih
  | @take pending mid left inner others taken names _ _ _ ihinner ihrest =>
    intro m hm
    by_cases hname : m.name = taken.name
    · exact .inr ⟨taken, by simp, hname.symm⟩
    rcases ihinner m (List.mem_filter.mpr ⟨hm, by simpa using hname⟩) with hmid | ⟨m', hm', heq⟩
    · rcases ihrest m hmid with hleft | ⟨m', hm', heq⟩
      · exact .inl hleft
      · exact .inr ⟨m', by simp [hm'], heq⟩
    · exact .inr ⟨m', by simp [hm'], heq⟩

/-- No mixin of a name that was asked for is left. -/
theorem not_left_of_asked (h : Visits pending names left ordered) :
    ∀ name ∈ names, ∀ m ∈ left, m.name ≠ name := by
  induction h with
  | done => exact fun _ hname => absurd hname List.not_mem_nil
  | skip hskip hrest ih =>
    intro name hname
    rcases List.mem_cons.mp hname with rfl | hname
    · exact fun m hm => hskip m (hrest.left_subset hm)
    · exact ih name hname
  | take _ hinner hrest _ ihrest =>
    intro name hname
    rcases List.mem_cons.mp hname with rfl | hname
    · intro m hm
      have := (List.mem_filter.mp (hinner.left_subset (hrest.left_subset hm))).2
      simpa using this
    · exact ihrest name hname

/-- No mixin is left that one put in order calls. -/
theorem not_left_of_called (h : Visits pending names left ordered) :
    ∀ m ∈ ordered, ∀ name ∈ calls m.declaration, ∀ m' ∈ left, m'.name ≠ name := by
  induction h with
  | done => exact fun _ hm => absurd hm List.not_mem_nil
  | skip _ _ ih => exact ih
  | take _ hinner hrest ihinner ihrest =>
    intro m hm name hname m' hm'
    have hmid := hrest.left_subset hm'
    rcases List.mem_append.mp hm with hm | hm
    · exact ihinner m hm name hname m' hmid
    rcases List.mem_cons.mp hm with rfl | hm
    · exact hinner.not_left_of_asked name hname m' hmid
    · exact ihrest m hm name hname m' hm'

end Visits

/-! ### Linking -/

theorem dependencies_subset (mixins : List Mixin) (source : Text) :
    dependencies mixins source ⊆ mixins := fun _ hm =>
  (List.mem_filter.mp ((visits_visitAll _ _).ordered_subset hm)).1

/-- What a source or one of its dependencies calls is declared by the source or is a dependency. -/
theorem dependencies_closed {mixins : List Mixin} {source name : Text} {m : Mixin} (hm : m ∈ mixins)
    (hname : m.name = name) (hcall : name ∈ calls source ∨
      ∃ d ∈ dependencies mixins source, name ∈ calls d.declaration) :
    name ∈ declaredNames source ∨ ∃ d ∈ dependencies mixins source, d.name = name := by
  by_cases hown : name ∈ declaredNames source
  · exact .inl hown
  have hvisits := visits_visitAll
    (mixins.filter fun m => !(declaredNames source).contains m.name) (calls source)
  have hpending : m ∈ mixins.filter fun m => !(declaredNames source).contains m.name := by
    rw [List.mem_filter]
    exact ⟨hm, by simpa [hname] using hown⟩
  rcases hvisits.covers m hpending with hleft | ⟨d, hd, heq⟩
  · exfalso
    rcases hcall with hcall | ⟨d, hd, hcall⟩
    · exact hvisits.not_left_of_asked name hcall m hleft hname
    · exact hvisits.not_left_of_called d hd name hcall m hleft hname
  · exact .inr ⟨d, hd, heq.trans hname⟩

theorem mem_calls_link {mixins : List Mixin} {source name : Text} :
    name ∈ calls (link mixins source) ↔
      name ∈ calls source ∨ ∃ d ∈ dependencies mixins source, name ∈ calls d.declaration := by
  rw [link, mem_calls_toText (by simp)]
  simp [or_and_right, exists_or, or_comm]

theorem mem_declaredNames_link {mixins : List Mixin} {source name : Text} :
    name ∈ declaredNames (link mixins source) ↔
      name ∈ declaredNames source ∨
        ∃ d ∈ dependencies mixins source, name ∈ declaredNames d.declaration := by
  rw [link, mem_declaredNames_toText (by simp)]
  simp [or_and_right, exists_or, or_comm]

/-- A linked source declares each mixin of the file that it calls. -/
theorem link_closed {ls : Lines} (hflat : ∀ l ∈ ls, '\n' ∉ l) {source name : Text}
    (hcall : name ∈ calls (link (table ls) source)) (hname : ∃ m ∈ table ls, m.name = name) :
    name ∈ declaredNames (link (table ls) source) := by
  obtain ⟨m, hm, hname⟩ := hname
  rw [mem_declaredNames_link]
  rcases dependencies_closed hm hname (mem_calls_link.mp hcall) with hown | ⟨d, hd, rfl⟩
  · exact .inl hown
  · exact .inr ⟨d, hd, name_mem_declaredNames hflat (dependencies_subset _ _ hd)⟩

/-- A visit puts nothing in order if it asks for nothing that is pending. -/
theorem Visits.ordered_eq_nil {pending left ordered : List Mixin} {names : List Text}
    (h : Visits pending names left ordered) (hnames : ∀ name ∈ names, ∀ m ∈ pending, m.name ≠ name) :
    ordered = [] := by
  induction h with
  | done => rfl
  | skip _ _ ih => exact ih fun name hname => hnames name (List.mem_cons_of_mem _ hname)
  | take hm _ _ _ _ => exact absurd rfl (hnames _ List.mem_cons_self _ hm)

theorem dependencies_eq_nil {mixins : List Mixin} {source : Text}
    (h : ∀ name ∈ calls source, (∃ m ∈ mixins, m.name = name) → name ∈ declaredNames source) :
    dependencies mixins source = [] := by
  apply (visits_visitAll _ _).ordered_eq_nil
  rintro name hname m hm rfl
  obtain ⟨hm, hown⟩ := List.mem_filter.mp hm
  have := h m.name hname ⟨m, hm, rfl⟩
  simp [this] at hown

theorem link_link {ls : Lines} (hflat : ∀ l ∈ ls, '\n' ∉ l) (source : Text) :
    link (table ls) (link (table ls) source) = link (table ls) source := by
  have hnone : dependencies (table ls) (link (table ls) source) = [] :=
    dependencies_eq_nil fun name hcall hname => link_closed hflat hcall hname
  rw [link, hnone]
  simp [Lines.toText, Text.join]

theorem link_eq_append (mixins : List Mixin) (source : Text) :
    link mixins source =
      (dependencies mixins source).flatMap (fun d => d.declaration ++ ['\n']) ++ source := by
  rw [link]
  induction dependencies mixins source with
  | nil => simp [Lines.toText, Text.join]
  | cons d ds ih =>
    rw [List.map_cons, List.cons_append, ← List.singleton_append, Lines.toText_append (by simp) (by simp),
      ih]
    simp [Lines.toText, Text.join]

end Mixin

/-- Linking puts declarations of the file before each source and changes nothing else. A linked
source has a declaring line for every mixin of the file that it calls, and is linked for good. -/
theorem Assembly.link_self_contained (file : Text) (a : Assembly) :
    let ls := Lines.ofText file
    let linked := a.link (Mixin.table ls)
    linked = { a with variants := linked.variants } ∧
    List.Forall₂ (fun v v' =>
      (∃ needed ⊆ Mixin.table ls,
        v' = { v with source := needed.flatMap (fun m => m.declaration ++ ['\n']) ++ v.source }) ∧
      ∀ name ∈ Mixin.calls v'.source, (∃ line ∈ ls, Mixin.declaredName? line = some name) →
        ∃ line ∈ Text.feedLines v'.source, Mixin.declaredName? line = some name)
      a.variants linked.variants ∧
    linked.link (Mixin.table ls) = linked := by
  intro ls linked
  have hflat : ∀ l ∈ ls, '\n' ∉ l := fun l hl => Lines.ofText_flat hl
  refine ⟨rfl, ?_, ?_⟩
  · rw [show linked.variants = a.variants.map _ from rfl, List.forall₂_map_right_iff,
      List.forall₂_same]
    intro v _
    refine ⟨⟨_, Mixin.dependencies_subset _ _, by rw [← Mixin.link_eq_append]⟩, ?_⟩
    rintro name hcall ⟨line, hline, hname⟩
    apply List.mem_filterMap.mp
    exact Mixin.link_closed hflat hcall (Mixin.exists_mem_table hline hname)
  · simp only [linked, link, List.map_map, Function.comp_def, Mixin.link_link hflat]

end TemplateDocs
