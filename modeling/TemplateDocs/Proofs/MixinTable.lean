import Mathlib
import TemplateDocs.Proofs.Dependencies
import TemplateDocs.Proofs.Extraction

/-!
# The table of mixins

A line that declares a name heads a declaration, described here by line numbers as blocks are. The
table holds for every name the declaration that the first line of that name heads. A block of one
code element that starts on this line has the same text, although it is cut by the column of its
marker and a bound on elements, and a declaration by the column of its head.
-/
namespace TemplateDocs

namespace Mixin

open Lines (indent)

/-! ### Declarations by line numbers -/

/-- Line `i` declares a name. -/
def DeclaredAt (ls : Lines) (name : Text) (i : Nat) : Prop := ls[i]?.bind declaredName? = some name

instance (ls : Lines) (name : Text) (i : Nat) : Decidable (DeclaredAt ls name i) :=
  inferInstanceAs (Decidable (_ = _))

/-- The lines of the declaration that line `i` heads. -/
structure Extent (ls : Lines) (i : Nat) where
  head : Text
  /-- The first line after the declaration. -/
  stop : Nat
  head_eq : ls[i]? = some head
  stop_least : IsLeast (Block.scopeEnds ls (indent head) i) stop

variable {ls : Lines} {n : Text} {i : Nat}

namespace Extent

def lines (x : Extent ls i) : Lines := Lines.dropBlankEnd (ls.extract i x.stop)

/-- The declaration, moved to the column of its head. -/
def text (x : Extent ls i) : Text :=
  Lines.toText (x.lines.map fun l => l.drop (min (indent x.head) (indent l)))

theorem unique (x y : Extent ls i) : x = y := by
  obtain ⟨head, stop, hhead, hstop⟩ := x
  obtain ⟨head', stop', hhead', hstop'⟩ := y
  obtain rfl : head = head' := Option.some.inj (hhead.symm.trans hhead')
  obtain rfl := hstop.unique hstop'
  rfl

theorem ofHead?_eq (x : Extent ls i) :
    ofHead? x.head (ls.drop (i + 1)) = (declaredName? x.head).map fun name => ⟨name, x.text⟩ := by
  have hdedent : Lines.dedentLine (indent x.head) =
      fun l => l.drop (min (indent x.head) (indent l)) := by
    funext l
    rw [Lines.dedentLine, Nat.min_comm]
  simp only [ofHead?, text, lines, Block.extract_scopeEnd x.head_eq x.stop_least, Lines.dedent, hdedent]

end Extent

theorem exists_declaration (h : i < ls.length) : ∃ x : Extent ls i, x.head = ls[i] :=
  ⟨⟨ls[i], _, List.getElem?_eq_getElem h, Block.scope_length_least h _⟩, rfl⟩

/-- A line that declares a name heads a declaration. -/
theorem DeclaredAt.exists_extent (h : DeclaredAt ls n i) :
    ∃ x : Extent ls i, declaredName? x.head = some n := by
  obtain ⟨line, hline, hname⟩ := Option.bind_eq_some_iff.mp h
  obtain ⟨hi, hget⟩ := List.getElem?_eq_some_iff.mp hline
  obtain ⟨x, hx⟩ := exists_declaration hi
  exact ⟨x, by rw [hx, hget, hname]⟩

theorem declaredAt_cons_succ {l : Text} : DeclaredAt (l :: ls) n (i + 1) ↔ DeclaredAt ls n i := by
  rw [DeclaredAt, List.getElem?_cons_succ, DeclaredAt]

theorem exists_declaredAt_iff : (∃ i, DeclaredAt ls n i) ↔ ∃ line ∈ ls, declaredName? line = some n := by
  constructor
  · rintro ⟨i, hi⟩
    obtain ⟨line, hline, hname⟩ := Option.bind_eq_some_iff.mp hi
    exact ⟨line, List.mem_of_getElem? hline, hname⟩
  · rintro ⟨line, hline, hname⟩
    obtain ⟨i, hi⟩ := List.mem_iff_getElem?.mp hline
    exact ⟨i, by rw [DeclaredAt, hi, Option.bind_some, hname]⟩

/-! ### Looking a name up -/

/-- Repeated names are not seen by a look-up. -/
theorem get?_firsts (ms : List Mixin) (n : Text) : get? (firsts ms) n = get? ms n := by
  unfold get?
  congr 1
  induction ms with
  | nil => rfl
  | cons m ms ih =>
    rw [firsts, List.find?_cons, List.find?_cons]
    by_cases hm : m.name = n
    · simp [hm]
    · have hother : ∀ m' : Mixin,
          (decide (m'.name ≠ m.name) = true ∧ decide (m'.name = n) = true) ↔ m'.name = n := by
        intro m'
        rw [decide_eq_true_iff, decide_eq_true_iff, and_iff_right_iff_imp]
        rintro rfl
        exact Ne.symm hm
      simp only [hm, decide_false, without, List.find?_filter, hother, ih]

theorem get?_append_of_not {ms : List Mixin} (h : ∀ m ∈ ms, m.name ≠ n) (others : List Mixin) :
    get? (ms ++ others) n = get? others n := by
  have hnone : ms.find? (fun m => m.name = n) = none := by simpa using h
  rw [get?, List.find?_append, hnone, Option.none_or, get?]

theorem declaredName?_of_ofHead? {head : Text} {rest : Lines} {m : Mixin}
    (h : ofHead? head rest = some m) : declaredName? head = some m.name := by
  obtain ⟨name, hname, rfl⟩ := Option.map_eq_some_iff.mp h
  exact hname

/-- A name is looked up on the first line that declares it. -/
theorem get?_declarations {head : Text} (hhead : ls[i]? = some head)
    (hname : declaredName? head = some n) (hfirst : ∀ j < i, ¬ DeclaredAt ls n j) :
    get? (declarations ls) n = (ofHead? head (ls.drop (i + 1))).map declaration := by
  induction ls generalizing i with
  | nil => cases hhead
  | cons l ls ih =>
    rw [declarations]
    cases i with
    | zero =>
      cases hhead
      simp [ofHead?, hname, get?]
    | succ i =>
      have hother : ∀ m ∈ (ofHead? l ls).toList, m.name ≠ n := by
        rintro m hm rfl
        exact hfirst 0 (Nat.succ_pos i) (declaredName?_of_ofHead? (Option.mem_toList.mp hm))
      rw [get?_append_of_not hother]
      apply ih hhead
      intro j hj
      rw [← declaredAt_cons_succ]
      exact hfirst (j + 1) (Nat.succ_lt_succ hj)

theorem get?_table_of_least (h : IsLeast {i | DeclaredAt ls n i} i) :
    ∃ x : Extent ls i, get? (table ls) n = some x.text := by
  obtain ⟨x, hname⟩ := DeclaredAt.exists_extent h.1
  refine ⟨x, ?_⟩
  have hfirst : ∀ j < i, ¬ DeclaredAt ls n j := fun j hj hdeclared =>
    absurd (h.2 hdeclared) (Nat.not_le.mpr hj)
  rw [table, get?_firsts, get?_declarations x.head_eq hname hfirst, x.ofHead?_eq, hname]
  rfl

theorem exists_least_declaredAt (h : DeclaredAt ls n i) : ∃ k, IsLeast {i | DeclaredAt ls n i} k :=
  ⟨_, Nat.sInf_mem ⟨i, h⟩, fun _ hk => Nat.sInf_le hk⟩

theorem get?_table_eq_none_iff : get? (table ls) n = none ↔ ∀ i, ¬ DeclaredAt ls n i := by
  constructor
  · intro hnone i hi
    obtain ⟨k, hk⟩ := exists_least_declaredAt hi
    obtain ⟨x, hx⟩ := get?_table_of_least hk
    rw [hnone] at hx
    cases hx
  · intro h
    have hother : ∀ m ∈ declarations ls, m.name ≠ n := by
      rintro m hm rfl
      obtain ⟨head, rest, hsuffix, hm⟩ := mem_declarations_iff.mp hm
      obtain ⟨i, hi⟩ := exists_declaredAt_iff.mpr
        ⟨head, hsuffix.subset List.mem_cons_self, declaredName?_of_ofHead? hm⟩
      exact h i hi
    have hall := get?_append_of_not hother []
    rw [List.append_nil] at hall
    rw [table, get?_firsts, hall]
    rfl

end Mixin

/-! ### Blocks that document a mixin -/

namespace Block

open Lines (indent)

theorem codeBlocks_zero (column : Nat) (ls : Lines) : codeBlocks column (some 0) ls = [] := by
  cases ls <;> simp [codeBlocks]

/-- One code element is its head line and the scope of that line. -/
theorem codeBlocks_one {column : Nat} {head : Text} (h : column ≤ indent head) (rest : Lines) :
    codeBlocks column (some 1) (head :: rest) = head :: Lines.scope column rest := by
  rw [codeBlocks, if_neg (by simp; omega)]
  simp [codeBlocks_zero]

namespace Extent

variable {marker : Text} {ls : Lines} {m : Nat}

/-- Code of one element takes the lines of the declaration that its first line heads. -/
theorem code_eq_declaration (x : Extent marker ls m)
    (hcapture : x.capture = .single ∨ x.capture = .count 1) (hne : x.code ≠ [])
    (y : Mixin.Extent ls x.notesEnd) : indent y.head = indent x.head ∧ x.code = y.lines := by
  have hbound : x.capture.bound? = some 1 := by
    rcases hcapture with h | h <;> rw [h] <;> rfl
  have hcode : x.code = Lines.dropBlankEnd x.window := by
    rw [code, if_neg]
    rcases hcapture with h | h <;> rw [h] <;> decide
  have hindent : indent y.head = indent x.head := by
    obtain ⟨first, rest, hlines⟩ := List.exists_cons_of_ne_nil hne
    obtain ⟨hline, -, hindent⟩ := code_head (x := x) (l := first) (by rw [hlines]; rfl)
    obtain rfl : y.head = first := Option.some.inj (y.head_eq.symm.trans hline)
    exact hindent
  obtain ⟨hend, hget⟩ := List.getElem?_eq_some_iff.mp y.head_eq
  refine ⟨hindent, ?_⟩
  rw [hcode, x.window_eq, hbound, List.drop_eq_getElem_cons hend, hget,
    codeBlocks_one (Nat.le_of_eq hindent.symm), Mixin.Extent.lines,
    extract_scopeEnd y.head_eq y.stop_least, hindent]

/-- Without invisible characters, a line is handed on as it stands from the marker's column on. -/
theorem deliver_of_visible {l : Text} (h : '\u2028' ∉ l ∧ '\u200b' ∉ l) (column : Nat) :
    deliver column l = l.drop (min column (indent l)) := by
  unfold deliver
  rw [List.filter_eq_self]
  intro c hc
  have hmem := List.mem_of_mem_drop hc
  rw [decide_eq_true_iff]
  constructor
  · rintro rfl
    exact h.1 hmem
  · rintro rfl
    exact h.2 hmem

/-- The text of a block of one element is that of the declaration on its first line. -/
theorem codeText_eq_declaration (x : Extent marker ls m)
    (hcapture : x.capture = .single ∨ x.capture = .count 1) (hne : x.code ≠ [])
    (hvisible : ∀ l ∈ ls, '\u2028' ∉ l ∧ '\u200b' ∉ l) (y : Mixin.Extent ls x.notesEnd) :
    x.block.codeText = y.text := by
  obtain ⟨hindent, hcode⟩ := x.code_eq_declaration hcapture hne y
  rw [codeText, Mixin.Extent.text, block, hindent, ← hcode]
  congr 1
  refine List.map_congr_left fun l hl => ?_
  exact deliver_of_visible (hvisible l (x.code_subset hl)) _

/-- The first line of the code declares what the line of the file declares. -/
theorem declaredAt_notesEnd (x : Extent marker ls m) (hvisible : ∀ l ∈ ls, '\u2028' ∉ l ∧ '\u200b' ∉ l)
    {n : Text} (h : x.block.code.head?.bind Mixin.declaredName? = some n) :
    x.code ≠ [] ∧ Mixin.DeclaredAt ls n x.notesEnd := by
  rw [block, List.head?_map, Option.bind_map] at h
  obtain ⟨first, hfirst, hname⟩ := Option.bind_eq_some_iff.mp h
  obtain ⟨hline, -, hindent⟩ := code_head hfirst
  have hnil : x.code ≠ [] := by
    intro hnil
    rw [hnil] at hfirst
    cases hfirst
  rw [Function.comp_apply, deliver_of_visible (hvisible first (List.mem_of_getElem? hline)), ← hindent,
    Nat.min_self, Lines.drop_indent, Mixin.declaredName?_trimStart] at hname
  exact ⟨hnil, by rw [Mixin.DeclaredAt, hline, Option.bind_some, hname]⟩

end Extent

end Block

/-- The names of the table are distinct, and they are those that lines declare. A name stands for the
declaration that its first line heads: the lines up to the first that has content and is not
indented deeper, without blank lines at the end and without the indentation of the head. Where no
character is invisible, this is the code of every block of one element that starts on that line. -/
theorem Mixin.table_exact (ls : Lines) :
    ((table ls).map name).Nodup ∧
    (∀ n, (get? (table ls) n).isSome ↔ ∃ line ∈ ls, declaredName? line = some n) ∧
    (∀ n i, IsLeast {i | DeclaredAt ls n i} i →
      ∃ x : Extent ls i, (∀ y, y = x) ∧ get? (table ls) n = some x.text) ∧
    ((∀ l ∈ ls, '\u2028' ∉ l ∧ '\u200b' ∉ l) → ∀ keyword, ∀ b ∈ Block.extract keyword ls,
      b.capture = .single ∨ b.capture = .count 1 →
      ∃ m, ∃ x : Block.Extent (markerText keyword) ls m, b = x.block ∧
        ∀ n, b.code.head?.bind declaredName? = some n → (∀ i < x.notesEnd, ¬ DeclaredAt ls n i) →
          get? (table ls) n = some b.codeText) := by
  refine ⟨names_firsts_nodup _, ?_, ?_, ?_⟩
  · intro n
    rw [← exists_declaredAt_iff, Option.isSome_iff_ne_none, ne_eq, get?_table_eq_none_iff]
    push Not
    rfl
  · intro n i hleast
    obtain ⟨x, hx⟩ := get?_table_of_least hleast
    exact ⟨x, fun y => y.unique x, hx⟩
  · intro hvisible keyword b hb hcapture
    obtain ⟨m, x, -, rfl⟩ := Block.mem_extract_iff.mp hb
    refine ⟨m, x, rfl, fun n hname hfirst => ?_⟩
    obtain ⟨hne, hdeclared⟩ := x.declaredAt_notesEnd hvisible hname
    have hleast : IsLeast {i | DeclaredAt ls n i} x.notesEnd :=
      ⟨hdeclared, fun i hi => Nat.not_lt.mp fun hlt => hfirst i hlt hi⟩
    obtain ⟨y, hy⟩ := get?_table_of_least hleast
    rw [hy, x.codeText_eq_declaration hcapture hne hvisible y]

end TemplateDocs
