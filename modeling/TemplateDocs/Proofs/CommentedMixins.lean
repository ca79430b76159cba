import Mathlib
import TemplateDocs.Proofs.MixinTable

/-!
# Mixins in comments

The table of mixins is made of all lines, those of comments included. So a line of an annotation that
reads like a declaration is one, and it counts if it comes before the others of its name. What the
table holds is then text of that annotation alone.
-/
namespace TemplateDocs

theorem Lines.isPrefix_of_append_blanks {kept ls blanks : Lines} (h : kept <+: ls ++ blanks)
    (hblanks : ∀ l ∈ blanks, isBlank l = true) (hkept : ∀ l ∈ kept.getLast?, isBlank l = false) :
    kept <+: ls := by
  rcases Nat.le_total kept.length ls.length with hle | hle
  · exact List.prefix_of_prefix_length_le h (List.prefix_append ls blanks) hle
  · obtain ⟨more, rfl⟩ := List.prefix_of_prefix_length_le (List.prefix_append ls blanks) h hle
    have hmore : more ⊆ blanks := ((List.prefix_append_right_inj ls).mp h).subset
    rcases List.eq_nil_or_concat more with rfl | ⟨front, last, rfl⟩
    · rw [List.append_nil]
    · have hlast := hkept last (by simp)
      rw [hblanks last (hmore (by simp))] at hlast
      cases hlast

namespace Block.Extent

open Lines (isBlank)

variable {marker : Text} {ls : Lines} {m i : Nat}

theorem comment_isPrefix (x : Extent marker ls m) : x.comment <+: x.head :: x.scope := by
  rw [← x.annotated_eq]
  exact Lines.dropBlankEnd_isPrefix _

theorem comment_length_le (x : Extent marker ls m) : m + x.comment.length ≤ x.notesEnd := by
  have := x.comment_isPrefix.length_le
  rw [List.length_cons] at this
  rw [x.notesEnd_eq]
  omega

/-- From a line of the comment on, the lines before the code are those of the comment and blank. -/
theorem extract_notesEnd (x : Extent marker ls m) (hm : m ≤ i) (hi : i ≤ m + x.comment.length) :
    ∃ blanks : Lines, (∀ l ∈ blanks, isBlank l = true) ∧
      ls.extract i x.notesEnd = x.comment.drop (i - m) ++ blanks := by
  obtain ⟨blanks, hblanks, hsplit⟩ := Lines.dropBlankEnd_append_blanks (ls.extract m x.notesEnd)
  refine ⟨blanks, hblanks, ?_⟩
  have hdrop : ls.extract i x.notesEnd = (ls.extract m x.notesEnd).drop (i - m) := by
    obtain ⟨k, rfl⟩ := Nat.exists_eq_add_of_le hm
    rw [List.extract_eq_take_drop, List.extract_eq_take_drop, List.drop_take, List.drop_drop,
      Nat.add_sub_cancel_left, Nat.sub_sub]
  rw [hdrop, hsplit]
  exact List.drop_append_of_le_length (show i - m ≤ x.comment.length by omega)

end Block.Extent

namespace Mixin

open Lines (indent isBlank)

/-- Line `i` is the marker of a block or belongs to its annotation. -/
def InComment (keyword : Text) (ls : Lines) (i : Nat) : Prop :=
  ∃ b ∈ Block.extract keyword ls, b.line ≤ i + 1 ∧ i + 1 < b.line + b.comment.length

instance (keyword : Text) (ls : Lines) (i : Nat) : Decidable (InComment keyword ls i) :=
  inferInstanceAs (Decidable (∃ b ∈ _, _))

/-- The lines outside comments that declare a name. -/
def declaredOutside (keyword : Text) (ls : Lines) (n : Text) : Set Nat :=
  {i | DeclaredAt ls n i ∧ ¬ InComment keyword ls i}

/-- A name is looked up as if comments declared nothing. -/
structure CommentsSilent (keyword : Text) (ls : Lines) (n : Text) : Prop where
  declared : ∀ i, IsLeast (declaredOutside keyword ls n) i →
    ∃ x : Extent ls i, get? (table ls) n = some x.text
  undeclared : (∀ i, i ∉ declaredOutside keyword ls n) → get? (table ls) n = none

/-- Line `i` heads the same text as the first line outside comments that declares the name. -/
def MatchesOutside (keyword : Text) (ls : Lines) (n : Text) (i : Nat) : Prop :=
  ∃ j, IsLeast (declaredOutside keyword ls n) j ∧ ∃ x : Extent ls i, ∃ y : Extent ls j, x.text = y.text

variable {keyword n : Text} {ls : Lines} {m i : Nat}

/-! ### Declarations inside an annotation -/

theorem declaredName?_of_marker {line : Text} (h : Text.trim line = markerText keyword) :
    declaredName? line = none := by
  cases hname : declaredName? line with
  | none => rfl
  | some name =>
    obtain ⟨-, rest, hrest, -⟩ := declaredName?_eq_some_iff.mp hname
    have hfirst : (Text.trim line).head? = some 'm' := by
      rw [← Lines.margin_append_trimStart line, Text.trim_append_left (Lines.margin_space line), hrest]
      exact Text.head?_trim_cons rfl _
    rw [h] at hfirst
    cases hfirst

/-- A declaration in an annotation stands to the right of the marker. -/
theorem Extent.indent_lt_of_mem_comment (x : Block.Extent (markerText keyword) ls m) (y : Extent ls i)
    (hname : declaredName? y.head = some n) (hm : m ≤ i) (hi : i < m + x.comment.length) :
    indent x.head < indent y.head := by
  obtain ⟨k, rfl⟩ := Nat.exists_eq_add_of_le hm
  have hline : (x.head :: x.scope)[k]? = some y.head := by
    have hk : k < (x.head :: x.scope).length := by
      have := x.comment_isPrefix.length_le
      omega
    have hwhole : x.head :: x.scope <+: ls.drop m := by
      rw [← x.annotated_eq, List.extract_eq_take_drop]
      exact List.take_prefix _ _
    obtain ⟨rest, hrest⟩ := hwhole
    have hget := y.head_eq
    rwa [← List.getElem?_drop, ← hrest, List.getElem?_append_left hk] at hget
  cases k with
  | zero =>
    rw [← Option.some.inj hline, declaredName?_of_marker x.marker_eq] at hname
    cases hname
  | succ k =>
    have hscope := List.mem_takeWhile_imp (List.mem_of_getElem? hline)
    simpa [isBlank_of_declaredName? hname] using hscope

/-- The line that ends an annotation ends every declaration in it. -/
theorem Extent.stop_le_notesEnd (x : Block.Extent (markerText keyword) ls m) (y : Extent ls i)
    (hname : declaredName? y.head = some n) (hm : m ≤ i) (hi : i < m + x.comment.length) :
    y.stop ≤ x.notesEnd := by
  have hindent := y.indent_lt_of_mem_comment x hname hm hi
  have hlength := x.comment_length_le
  apply y.stop_least.2
  refine ⟨by omega, ?_⟩
  rcases x.notesEnd_least.1.2 with hend | ⟨line, hline, hcontent, hle⟩
  · exact .inl hend
  · exact .inr ⟨line, hline, hcontent, by omega⟩

/-- A declaration in an annotation consists of lines of it. -/
theorem Extent.lines_isPrefix_comment (x : Block.Extent (markerText keyword) ls m) (y : Extent ls i)
    (hname : declaredName? y.head = some n) (hm : m ≤ i) (hi : i < m + x.comment.length) :
    y.lines <+: x.comment.drop (i - m) := by
  have hstop := y.stop_le_notesEnd x hname hm hi
  obtain ⟨blanks, hblanks, hannotated⟩ := x.extract_notesEnd hm (Nat.le_of_lt hi)
  have hlines : y.lines <+: ls.extract i x.notesEnd := by
    apply (Lines.dropBlankEnd_isPrefix _).trans
    rw [List.extract_eq_take_drop, List.extract_eq_take_drop]
    exact List.take_prefix_take_left (by omega)
  rw [hannotated] at hlines
  exact Lines.isPrefix_of_append_blanks hlines hblanks (Lines.last_dropBlankEnd _)

/-! ### The first declaration -/

theorem get?_table_eq (h : IsLeast {i | DeclaredAt ls n i} i) (x : Extent ls i) :
    get? (table ls) n = some x.text := by
  obtain ⟨y, hy⟩ := get?_table_of_least h
  rw [hy, x.unique y]

theorem silent_of_first (h : ∀ i, IsLeast {i | DeclaredAt ls n i} i → InComment keyword ls i →
    MatchesOutside keyword ls n i) : CommentsSilent keyword ls n := by
  constructor
  · intro j hj
    obtain ⟨i, hi⟩ := exists_least_declaredAt hj.1.1
    by_cases hcomment : InComment keyword ls i
    · obtain ⟨j', hj', x, y, htext⟩ := h i hi hcomment
      obtain rfl := hj.unique hj'
      exact ⟨y, by rw [get?_table_eq hi x, htext]⟩
    · obtain rfl : i = j := Nat.le_antisymm (hi.2 hj.1.1) (hj.2 ⟨hi.1, hcomment⟩)
      exact get?_table_of_least hi
  · intro hnone
    rw [get?_table_eq_none_iff]
    intro k hk
    obtain ⟨i, hi⟩ := exists_least_declaredAt hk
    have hcomment : InComment keyword ls i := by
      by_contra hcomment
      exact hnone i ⟨hi.1, hcomment⟩
    obtain ⟨j, hj, -⟩ := h i hi hcomment
    exact hnone j hj.1

theorem CommentsSilent.first (h : CommentsSilent keyword ls n) (hi : IsLeast {i | DeclaredAt ls n i} i) :
    MatchesOutside keyword ls n i := by
  obtain ⟨x, hx⟩ := get?_table_of_least hi
  have hsome : ∃ k, k ∈ declaredOutside keyword ls n := by
    by_contra hnone
    push Not at hnone
    rw [h.undeclared hnone] at hx
    cases hx
  have hj : IsLeast (declaredOutside keyword ls n) (sInf (declaredOutside keyword ls n)) :=
    ⟨Nat.sInf_mem hsome, fun _ hk => Nat.sInf_le hk⟩
  obtain ⟨y, hy⟩ := h.declared _ hj
  exact ⟨_, hj, x, y, Option.some.inj (hx.symm.trans hy)⟩

/-- A name is looked up as if comments declared nothing exactly if the first line that declares it
stands in no comment, or heads the same text as the first one outside. Where it stands in the comment
of a block, the table holds lines of this comment for the name, from that line on, and no others. -/
theorem comments_silent_iff (keyword : Text) (ls : Lines) (n : Text) :
    (CommentsSilent keyword ls n ↔
      ∀ i, IsLeast {i | DeclaredAt ls n i} i → InComment keyword ls i → MatchesOutside keyword ls n i) ∧
    ∀ i, IsLeast {i | DeclaredAt ls n i} i → ∀ b ∈ Block.extract keyword ls,
      b.line ≤ i + 1 → i + 1 < b.line + b.comment.length →
        ∃ x : Extent ls i, get? (table ls) n = some x.text ∧
          x.lines <+: b.comment.drop (i + 1 - b.line) := by
  refine ⟨⟨fun h i hi _ => h.first hi, silent_of_first⟩, ?_⟩
  intro i hi b hb hfrom hto
  obtain ⟨m, x, -, rfl⟩ := Block.mem_extract_iff.mp hb
  obtain ⟨y, hname⟩ := DeclaredAt.exists_extent hi.1
  have hline : x.block.line = m + 1 := rfl
  have hlines := y.lines_isPrefix_comment x hname (by omega)
    (show i < m + x.block.comment.length by omega)
  rw [hline, Nat.add_sub_add_right]
  exact ⟨y, get?_table_eq hi y, hlines⟩

/-- The description of the block has a line that reads like a declaration. -/
def describedMixin : Lines := Lines.ofText
  "//- @pugdoc\n  name: x\n  description: |\n    mixin foo\nmixin foo(a)\n  p= a".toList

theorem comments_not_silent_describedMixin :
    IsLeast (declaredOutside defaultKeyword describedMixin "foo".toList) 4 ∧
    get? (table describedMixin) "foo".toList = some "mixin foo".toList ∧
    ¬ CommentsSilent defaultKeyword describedMixin "foo".toList := by
  have hleast : IsLeast (declaredOutside defaultKeyword describedMixin "foo".toList) 4 := by
    have hat : DeclaredAt describedMixin "foo".toList 4 ∧ ¬ InComment defaultKeyword describedMixin 4 := by
      decide +kernel
    have hbefore : ∀ i < 4, DeclaredAt describedMixin "foo".toList i →
        InComment defaultKeyword describedMixin i := by
      decide +kernel
    exact ⟨hat, fun i hi => Nat.not_lt.mp fun hlt => hi.2 (hbefore i hlt hi.1)⟩
  have hget : get? (table describedMixin) "foo".toList = some "mixin foo".toList := by decide +kernel
  refine ⟨hleast, hget, fun h => ?_⟩
  obtain ⟨x, hx⟩ := h.declared 4 hleast
  have hline : describedMixin[4]? = some "mixin foo(a)".toList := by decide +kernel
  have hdeclaration : ofHead? "mixin foo(a)".toList (describedMixin.drop 5) =
      some ⟨"foo".toList, "mixin foo(a)\n  p= a".toList⟩ := by
    decide +kernel
  have hhead := x.ofHead?_eq
  rw [← Option.some.inj (hline.symm.trans x.head_eq), hdeclaration] at hhead
  obtain ⟨name, -, hmixin⟩ := Option.map_eq_some_iff.mp hhead.symm
  have htext : x.text = "mixin foo(a)\n  p= a".toList := congrArg declaration hmixin
  rw [hget, htext] at hx
  exact absurd hx (by decide)

end Mixin
end TemplateDocs
