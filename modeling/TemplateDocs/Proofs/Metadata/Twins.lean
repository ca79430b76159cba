import Mathlib
import TemplateDocs.Proofs.Basic
import TemplateDocs.Proofs.Metadata.Quoting
import TemplateDocs.Proofs.Outline.Blocks
import TemplateDocs.Proofs.Outline.Values

/-!
# Lines and what quoting makes of them

Quoting leaves a line as it is or puts the text of an item in quotes. A text that goes on over several
lines shows every line in which it did so: the quotes become characters of the text.
-/
namespace TemplateDocs

namespace Outline

open Json (Value)
open Metadata (isProtected quotedItem escapeQuotes)

/-- The text of an item. -/
def spelling (l : Line) : Text := Text.trim (l.text.drop 1)

/-- `l` is an item, and `l'` is the item with its text in quotes. -/
structure Requoted (l l' : Line) : Prop where
  item : Line.isItemText l.text = true
  tight : Text.Tight l.text
  filled : spelling l ≠ []
  free : ∀ c ∈ (spelling l).head?, isProtected c = false
  text : l'.text = quotedItem (spelling l)
  marks : l'.raw.count '"' = l.raw.count '"' + 2

/-- Lines that are alike. They are equal, or the number of the first is one of those changed and the text
of an item was put in quotes. -/
structure Twin (changed : Nat → Prop) (l l' : Line) : Prop where
  alike : Alike l l'
  same : ¬ changed l.number → l = l'
  quoted : changed l.number → Requoted l l'

section Twins

variable {changed : Nat → Prop}

theorem Twin.refl {l : Line} (h : ¬ changed l.number) : Twin changed l l :=
  ⟨⟨rfl, rfl, rfl, rfl⟩, fun _ => rfl, fun hc => absurd hc h⟩

theorem append_twin {a b c : List Line} (h : List.Forall₂ (Twin changed) (a ++ b) c) :
    ∃ a' b', c = a' ++ b' ∧ List.Forall₂ (Twin changed) a a' ∧ List.Forall₂ (Twin changed) b b' := by
  induction a generalizing c with
  | nil => exact ⟨[], c, rfl, .nil, h⟩
  | cons l a ih =>
    cases h with
    | cons hl h =>
      obtain ⟨a', b', rfl, ha, hb⟩ := ih h
      exact ⟨_ :: a', b', rfl, .cons hl ha, hb⟩

/-- Twins of which as many lines are left are twins in both parts. -/
theorem append_twin_append {a b a' b' : List Line}
    (h : List.Forall₂ (Twin changed) (a ++ b) (a' ++ b')) (hlen : b.length = b'.length) :
    List.Forall₂ (Twin changed) a a' ∧ List.Forall₂ (Twin changed) b b' := by
  obtain ⟨c, d, hc, ha, hb⟩ := append_twin h
  obtain ⟨rfl, rfl⟩ := List.append_inj' hc.symm (by rw [← hb.length_eq, hlen])
  exact ⟨ha, hb⟩

theorem eq_of_unchanged {a a' : List Line} (h : List.Forall₂ (Twin changed) a a')
    (hs : ∀ l ∈ a, ¬ changed l.number) : a = a' := by
  induction h with
  | nil => rfl
  | @cons l l' a a' hl _ ih =>
    rw [hl.same (hs l (by simp)), ih fun l hm => hs l (by simp [hm])]

theorem active_twin {ls ls' : List Line} (h : List.Forall₂ (Twin changed) ls ls') :
    List.Forall₂ (Twin changed) (active ls) (active ls') := by
  induction h with
  | nil => exact .nil
  | @cons l l' rest rest' hl hrest ih =>
    cases hi : l.isIdle with
    | false =>
      rw [active_cons hi, active_cons (hl.alike.idle ▸ hi)]
      exact .cons hl hrest
    | true =>
      have hi' : l'.isIdle = true := hl.alike.idle ▸ hi
      simpa [active, hi, hi'] using ih

/-- What grows with every line that is changed tells whether there is one. -/
theorem unchanged_of_sum {f : Line → Nat} (hf : ∀ l l', Requoted l l' → f l < f l') {a a' : List Line}
    (h : List.Forall₂ (Twin changed) a a') :
    (a.map f).sum ≤ (a'.map f).sum ∧
      ((a.map f).sum = (a'.map f).sum → ∀ l ∈ a, ¬ changed l.number) := by
  induction h with
  | nil => simp
  | @cons l l' a a' hl _ ih =>
    simp only [List.map_cons, List.sum_cons]
    by_cases hc : changed l.number
    · have := hf l l' (hl.quoted hc)
      refine ⟨by omega, fun he => ?_⟩
      omega
    · rw [← hl.same hc]
      refine ⟨by omega, fun he m hm => ?_⟩
      rcases List.mem_cons.mp hm with rfl | hm
      · exact hc
      · exact ih.2 (by omega) m hm

end Twins

/-! ### Documents -/

theorem quoteLine_requoted (list : Option Nat) (line : Text) (n : Nat) :
    Metadata.quoteLine list line = line ∨
      Requoted (Line.of n line) (Line.of n (Metadata.quoteLine list line)) := by
  unfold Metadata.quoteLine
  split_ifs with h
  · have hitem := Metadata.isItemText_of_isItem (Bool.and_eq_true_iff.mp h).2
    by_cases hfree : (∀ c ∈ (Metadata.itemText line).head?, isProtected c = false) ∧
        Metadata.itemText line ≠ []
    · right
      have hquoted := Metadata.quotedItem_tight (Metadata.itemText line)
      rw [Metadata.quoteItem_of_itemText hfree.1 hfree.2]
      refine ⟨hitem, Text.trim_tight line, hfree.2, hfree.1, ?_, Metadata.count_quotedItem hitem⟩
      change Text.trim (Lines.margin line ++ _) = _
      rw [Text.trim_append_left (Lines.margin_space line), Text.trim_of_tight hquoted]
      rfl
    · exact .inl (Metadata.quoteItem_of_protected hfree)
  · exact .inl rfl

theorem numbered_requoted (list : Option Nat) (n : Nat) (raws : Lines) :
    List.Forall₂ (fun l l' => l.number = l'.number ∧ Alike l l' ∧ (l = l' ∨ Requoted l l'))
      (Line.numbered n raws) (Line.numbered n (Metadata.quoteItems list raws)) := by
  have nonempty : ∀ {t : Text}, Line.isItemText t = true → t.isEmpty = false ∧ t.head? ≠ some '#' := by
    intro t ht
    obtain ⟨rest, rfl⟩ := Line.exists_of_isItemText ht
    exact ⟨rfl, by simp⟩
  induction raws generalizing list n with
  | nil => exact .nil
  | cons line rest ih =>
    rw [Metadata.quoteItems_cons]
    refine .cons ⟨rfl, ?_, ?_⟩ (ih _ _)
    · have hkept := Metadata.quoteLine_kept list line
      rcases hkept.item with he | ⟨hi, hi'⟩
      · rw [← he]
        exact ⟨rfl, rfl, rfl, rfl⟩
      · refine ⟨hkept.indent, ?_, ?_, ?_⟩
        · simp [Line.isIdle, Line.of, nonempty hi, nonempty hi']
        · simp only [Line.of, nonempty hi, nonempty hi']
        · simp only [Line.of, hi, hi']
    · rcases quoteLine_requoted list line n with he | hq
      · exact .inl (by rw [he])
      · exact .inr hq

/-- Some line with this number is another one after escaping. -/
def Rewritten (n : Nat) (t : Text) (number : Nat) : Prop :=
  ∃ l ∈ document n t, l.number = number ∧ l ∉ document n (Metadata.escapeParameterLists t)

theorem rewritten_iff {n : Nat} {t : Text} {l : Line} (hl : l ∈ document n t) :
    Rewritten n t l.number ↔ l ∉ document n (Metadata.escapeParameterLists t) := by
  constructor
  · rintro ⟨m, hm, hnumber, hnot⟩
    rwa [Line.eq_of_number_eq hm hl hnumber] at hnot
  · intro hnot
    exact ⟨l, hl, rfl, hnot⟩

/-- Line by line, the escaped text is a twin of the text. -/
theorem document_twin (n : Nat) (t : Text) :
    List.Forall₂ (Twin (Rewritten n t)) (document n t)
      (document n (Metadata.escapeParameterLists t)) := by
  have hpairs := numbered_requoted none n (Text.split '\n' t)
  rw [← Metadata.split_escapeParameterLists] at hpairs
  rw [List.forall₂_iff_zip] at hpairs ⊢
  refine ⟨hpairs.1, fun {l l'} hmem => ?_⟩
  obtain ⟨hl, hl'⟩ := List.of_mem_zip hmem
  obtain ⟨hnumber, halike, hchange⟩ := hpairs.2 hmem
  refine ⟨halike, fun hsame => ?_, fun hc => ?_⟩
  · rw [rewritten_iff hl, not_not] at hsame
    exact Line.eq_of_number_eq hsame hl' hnumber
  · refine hchange.resolve_left ?_
    rintro rfl
    exact (rewritten_iff hl).mp hc hl'

theorem suffix_twin {changed : Nat → Prop} {n : Nat} {raws raws' : Lines} {l l' : Line}
    {a a' : List Line} (h : List.Forall₂ (Twin changed) (Line.numbered n raws) (Line.numbered n raws'))
    (hs : l :: a <:+ Line.numbered n raws) (hs' : l' :: a' <:+ Line.numbered n raws')
    (hn : l.number = l'.number) : List.Forall₂ (Twin changed) a a' := by
  have h1 := Line.number_of_suffix hs
  have h2 := Line.number_of_suffix hs'
  have hlen := h.length_eq
  have ha := (List.suffix_cons l a).trans hs
  have ha' := (List.suffix_cons l' a').trans hs'
  rw [Line.length_numbered, Line.length_numbered] at hlen
  have hcount : (Line.numbered n raws).length - a.length =
      (Line.numbered n raws').length - a'.length := by
    rw [Line.length_numbered, Line.length_numbered]
    omega
  rw [List.suffix_iff_eq_drop.mp ha, List.suffix_iff_eq_drop.mp ha', hcount]
  exact List.forall₂_drop _ h

/-! ### Items in a text -/

namespace Requoted

variable {l l' : Line} (h : Requoted l l')

include h

theorem exists_text_eq :
    ∃ ws : Text, (∀ c ∈ ws, Text.isSpace c = true) ∧ l.text = '-' :: (ws ++ spelling l) := by
  obtain ⟨rest, hrest⟩ := Line.exists_of_isItemText h.item
  have hspelling : spelling l = Text.trim rest := by rw [spelling, hrest, List.drop_one, List.tail_cons]
  obtain ⟨ws, hws, hend⟩ := Text.trimEnd_append_blanks (Text.trimStart rest)
  have hparts : l.text = ('-' :: (Lines.margin rest ++ spelling l)) ++ ws := by
    rw [hspelling, Text.trim, List.cons_append, List.append_assoc, ← hend,
      Lines.margin_append_trimStart, hrest]
  have hnil : ws = [] := Text.eq_nil_of_tight_append (hparts ▸ h.tight) hws
  exact ⟨Lines.margin rest, Lines.margin_space rest, by rw [hparts, hnil, List.append_nil]⟩

theorem itemContent_eq : itemContent l = spelling l := by
  obtain ⟨ws, hws, htext⟩ := h.exists_text_eq
  rw [itemContent, htext, List.drop_one, List.tail_cons, Text.trimStart_append hws]
  exact Text.trimStart_of_head (Text.trim_tight _).head

theorem isIdle_eq : l.isIdle = false := by
  obtain ⟨ws, -, htext⟩ := h.exists_text_eq
  simp [Line.isIdle, htext]

end Requoted

/-! ### Plain texts -/

theorem beforeComment_append {ws : Text} (hws : ∀ c ∈ ws, Text.isSpace c = true) (gap : Bool) (t : Text) :
    ∃ gap', beforeComment gap (ws ++ t) = ws ++ beforeComment gap' t := by
  induction ws generalizing gap with
  | nil => exact ⟨gap, rfl⟩
  | cons c ws ih =>
    have hc : c ≠ '#' := Text.ne_of_isSpace (by decide) (hws c (by simp))
    obtain ⟨gap', he⟩ := ih (fun d hd => hws d (by simp [hd])) (isGap c)
    exact ⟨gap', by simp [beforeComment, hc, he]⟩

theorem beforeComment_of_head {t : Text} (h : ∀ c ∈ t.head?, c ≠ '#') (gap gap' : Bool) :
    beforeComment gap t = beforeComment gap' t := by
  cases t with
  | nil => rfl
  | cons c t => simp [beforeComment, h c rfl]

/-- Putting a text in quotes takes none of its own quotes into a comment. -/
theorem count_beforeComment_escapeQuotes (gap : Bool) (t : Text) :
    (beforeComment gap t).count '"' ≤ (beforeComment gap (escapeQuotes t ++ ['"'])).count '"' := by
  induction t generalizing gap with
  | nil => exact Nat.zero_le _
  | cons c t ih =>
    have ih := ih (isGap c)
    rw [Metadata.escapeQuotes_cons, List.append_assoc]
    by_cases hesc : c = '\\' ∨ c = '"'
    · have hc : c ≠ '#' := by rcases hesc with rfl | rfl <;> decide
      simp only [hesc, if_true, List.cons_append, List.nil_append, beforeComment, hc, false_and, if_false,
        List.count_cons, show ('\\' : Char) ≠ '#' by decide]
      omega
    · simp only [hesc, if_false, List.cons_append, List.nil_append, beforeComment]
      split_ifs
      · exact Nat.le_refl _
      · simp only [List.count_cons]
        omega

theorem count_plainPart (t : Text) : (plainPart t).count '"' = (stripComment t).count '"' := by
  obtain ⟨ws, hws, he⟩ := Text.trimEnd_append_blanks (stripComment t)
  have hcount := congrArg (List.count '"') he
  rw [List.count_append, Text.count_blanks (by decide) hws] at hcount
  exact hcount.symm

theorem Requoted.count_plainPart_lt {l l' : Line} (h : Requoted l l') :
    (plainPart l.text).count '"' < (plainPart l'.text).count '"' := by
  obtain ⟨ws, hws, htext⟩ := h.exists_text_eq
  have hhead : ∀ c ∈ (spelling l).head?, c ≠ '#' := by
    rintro c hc rfl
    cases h.free '#' hc
  obtain ⟨gap, hgap⟩ := beforeComment_append hws (isGap '-') (spelling l)
  have hline : (stripComment l.text).count '"' = (beforeComment false (spelling l)).count '"' := by
    rw [htext, stripComment, beforeComment, if_neg (by decide), hgap, beforeComment_of_head hhead gap false,
      List.count_cons_of_ne (by decide), List.count_append, Text.count_blanks (by decide) hws, Nat.zero_add]
  have hquoted : (stripComment l'.text).count '"' =
      (beforeComment false (escapeQuotes (spelling l) ++ ['"'])).count '"' + 1 := by
    rw [h.text]
    simp [stripComment, quotedItem, beforeComment, isGap]
  have := count_beforeComment_escapeQuotes false (spelling l)
  rw [count_plainPart, count_plainPart, hline, hquoted]
  omega

/-- The quotes that a line adds to a plain text. -/
def plainMarks (l : Line) : Nat := if l.isIdle then 0 else (plainPart l.text).count '"'

theorem Requoted.plainMarks_lt {l l' : Line} (h : Requoted l l') : plainMarks l < plainMarks l' := by
  have hidle' : l'.isIdle = false := by simp [Line.isIdle, h.text, quotedItem]
  simpa [plainMarks, h.isIdle_eq, hidle'] using h.count_plainPart_lt

theorem count_deeperParts {parent : Option Nat} {parts : List Text} {seg left : List Line}
    (h : deeperParts parent (seg ++ left) = (parts, left)) :
    Lines.count '"' parts = (seg.map plainMarks).sum := by
  induction seg generalizing parts with
  | nil =>
    cases left with
    | nil =>
      cases h
      rfl
    | cons l rest =>
      have hlen := (deeperParts_suffix parent rest).length_le
      rw [List.nil_append, deeperParts] at h
      split_ifs at h
      · rw [Prod.ext_iff] at h
        simp [h.2] at hlen
      · rw [Prod.mk.injEq] at h
        simp [h.2] at hlen
      · cases h
        rfl
  | cons l seg ih =>
    rw [List.cons_append, deeperParts] at h
    rw [List.map_cons, List.sum_cons, plainMarks]
    split_ifs at h ⊢ with hidle hdeep
    · rw [ih h, Nat.zero_add]
    · rw [Prod.mk.injEq] at h
      rw [← h.1, Lines.count_cons, ih (Prod.ext rfl h.2)]
    · have := congrArg (List.length ∘ Prod.snd) h
      simp at this
      omega

theorem count_join_blank (parts : List Text) : (Text.join [' '] parts).count '"' = Lines.count '"' parts := by
  induction parts with
  | nil => rfl
  | cons p parts ih =>
    cases parts with
    | nil => simp [Text.join_singleton, Lines.count]
    | cons q parts =>
      rw [Text.join_cons_cons, List.count_append, List.count_append, ih, Lines.count_cons _ p]
      simp

section Twins

variable {changed : Nat → Prop}

theorem length_deeperParts_twin {ls ls' : List Line} (h : List.Forall₂ (Twin changed) ls ls')
    (parent : Option Nat) : (deeperParts parent ls).2.length = (deeperParts parent ls').2.length := by
  induction h with
  | nil => rfl
  | @cons l l' rest rest' hl hrest ih =>
    rw [deeperParts, deeperParts, ← hl.alike.idle, ← hl.alike.indent]
    split_ifs
    · exact ih
    · exact ih
    · simp [hrest.length_eq]

/-- A plain text over several lines shows every line that is changed. -/
theorem unchanged_of_readPlain {text : Text} {parent : Option Nat} {seg left ls' : List Line}
    (ht : List.Forall₂ (Twin changed) (seg ++ left) ls')
    (hleft : (deeperParts parent (seg ++ left)).2 = left)
    (hv : (readPlain text parent (seg ++ left)).value = (readPlain text parent ls').value) :
    ∀ l ∈ seg, ¬ changed l.number := by
  obtain ⟨seg', hls'⟩ := deeperParts_suffix parent ls'
  have hlen := length_deeperParts_twin ht parent
  rw [hleft] at hlen
  have hseg := (append_twin_append (hls'.symm ▸ ht) hlen).1
  have hparts := count_deeperParts (Prod.ext rfl hleft)
  have hsplit : deeperParts parent (seg' ++ (deeperParts parent ls').2) =
      ((deeperParts parent ls').1, (deeperParts parent ls').2) := by rw [hls']
  have hparts' := count_deeperParts hsplit
  obtain ⟨hle, heq⟩ := unchanged_of_sum (f := plainMarks) (fun l l' h => h.plainMarks_lt) hseg
  apply heq
  by_contra hne
  have hmore : '"' ∈ Text.join [' '] (plainPart text :: (deeperParts parent ls').1) := by
    rw [← List.count_pos_iff, count_join_blank, Lines.count_cons, hparts']
    omega
  have hvalue : resolve (Text.join [' '] (plainPart text :: (deeperParts parent (seg ++ left)).1)) =
      .string (Text.join [' '] (plainPart text :: (deeperParts parent ls').1)) :=
    hv.trans (resolve_of_mark hmore)
  have hcount := congrArg (List.count '"') (resolve_eq_string hvalue)
  rw [count_join_blank, count_join_blank, Lines.count_cons, Lines.count_cons, hparts, hparts'] at hcount
  omega

end Twins

/-! ### Quoted texts -/

theorem closeDouble?_quotedItem (t : Text) :
    closeDouble? (quotedItem t) = some (['-', ' ', '"'], escapeQuotes t ++ ['"']) := rfl

/-- Putting a text in quotes moves no single quote away from another. -/
theorem closeSingle?_escapeQuotes (t : Text) :
    closeSingle? (escapeQuotes t ++ ['"']) =
      (closeSingle? t).map fun p => (escapeQuotes p.1, escapeQuotes p.2 ++ ['"']) := by
  fun_induction closeSingle? t with
  | case1 => rfl
  | case2 t ih =>
    rw [Metadata.escapeQuotes_cons, Metadata.escapeQuotes_cons]
    simp [closeSingle?, ih, Option.map_map, Function.comp_def, Metadata.escapeQuotes_cons]
  | case3 t ht =>
    have hnext : ∀ u, escapeQuotes t ++ ['"'] ≠ '\'' :: u := by
      intro u he
      cases t with
      | nil => cases he
      | cons c t =>
        rw [Metadata.escapeQuotes_cons] at he
        split_ifs at he
        · cases he
        · cases he
          exact ht t rfl
    change closeSingle? ('\'' :: (escapeQuotes t ++ ['"'])) = _
    rw [closeSingle?]
    · rfl
    · exact hnext
  | case4 c t _ hc ih =>
    rw [Metadata.escapeQuotes_cons, List.append_assoc]
    have hx : '\'' ∉ (if c = '\\' ∨ c = '"' then ['\\', c] else [c]) := by
      split_ifs <;> simp [Ne.symm hc]
    rw [closeSingle?_append_left hx, ih, Option.map_map, Option.map_map]
    rfl

theorem Requoted.count_text_lt {l l' : Line} (h : Requoted l l') :
    l.text.count '"' < l'.text.count '"' := by
  obtain ⟨ws, hws, htext⟩ := h.exists_text_eq
  have hline : l.text.count '"' = (spelling l).count '"' := by
    rw [htext, List.count_cons_of_ne (by decide), List.count_append, Text.count_blanks (by decide) hws,
      Nat.zero_add]
  have hquoted : l'.text.count '"' = (spelling l).count '"' + 2 := by
    rw [h.text]
    simp [quotedItem, Metadata.count_escapeQuotes]
  omega

/-- What stands behind the opening quote of the item is no comment. -/
theorem Requoted.not_trailingComment {l l' : Line} (h : Requoted l l') :
    isTrailingComment (Text.trim (escapeQuotes (spelling l) ++ ['"'])) = false := by
  have hfree := h.free
  have hhead := (Text.trim_tight (l.text.drop 1)).head
  change ∀ c ∈ (spelling l).head?, Text.isSpace c = false at hhead
  cases hs : spelling l with
  | nil => exact absurd hs h.filled
  | cons c t =>
    obtain ⟨d, u, hform, hspace, hd⟩ : ∃ d u, escapeQuotes (c :: t) ++ ['"'] = d :: u ∧
        Text.isSpace d = false ∧ d ≠ '#' := by
      rw [Metadata.escapeQuotes_cons]
      split_ifs
      · exact ⟨'\\', _, rfl, by decide, by decide⟩
      · refine ⟨c, _, rfl, hhead c (by simp [hs]), ?_⟩
        rintro rfl
        cases hfree '#' (by simp [hs])
    have htrim := Text.head?_trim_cons hspace u
    rw [hform]
    cases ht : Text.trim (d :: u) with
    | nil => simp [ht] at htrim
    | cons e v => simp_all [isTrailingComment]

/-- The line and the line in quotes close a single quote at the same place or not at all. -/
theorem Requoted.closeSingle? {l l' : Line} (h : Requoted l l') :
    ∃ x : Text, x.count '"' = 0 ∧
      closeSingle? l.text = (closeSingle? (spelling l)).map (fun p => (x ++ p.1, p.2)) ∧
      closeSingle? l'.text = (closeSingle? (spelling l)).map
        fun p => ('-' :: ' ' :: '"' :: escapeQuotes p.1, escapeQuotes p.2 ++ ['"']) := by
  obtain ⟨ws, hws, htext⟩ := h.exists_text_eq
  have hquote : '\'' ∉ '-' :: ws := by
    intro hm
    rcases List.mem_cons.mp hm with hm | hm
    · cases hm
    · cases hws _ hm
  refine ⟨'-' :: ws, ?_, ?_, ?_⟩
  · rw [List.count_cons_of_ne (by decide), Text.count_blanks (by decide) hws]
  · rw [htext, ← List.cons_append, closeSingle?_append_left hquote]
  · have hform : l'.text = ['-', ' ', '"'] ++ (escapeQuotes (spelling l) ++ ['"']) := h.text
    rw [hform, closeSingle?_append_left (by decide), closeSingle?_escapeQuotes, Option.map_map]
    rfl

section Twins

variable {changed : Nat → Prop}

theorem Twin.count_text {l l' : Line} (h : Twin changed l l') :
    l.text.count '"' ≤ l'.text.count '"' ∧
      (l.text.count '"' = l'.text.count '"' → ¬ changed l.number) := by
  by_cases hc : changed l.number
  · have := (h.quoted hc).count_text_lt
    exact ⟨by omega, fun he => by omega⟩
  · rw [← h.same hc]
    exact ⟨Nat.le_refl _, fun _ => hc⟩

theorem Twin.closeSingle?_none {l l' : Line} (h : Twin changed l l') (hopen : closeSingle? l.text = none) :
    closeSingle? l'.text = none := by
  by_cases hc : changed l.number
  · obtain ⟨x, -, hline, hquoted⟩ := (h.quoted hc).closeSingle?
    rw [hquoted, Option.map_eq_none_iff]
    rwa [hline, Option.map_eq_none_iff] at hopen
  · rwa [← h.same hc]

theorem Twin.closeSingle?_some {l l' : Line} {s r : Text} (h : Twin changed l l')
    (hclose : closeSingle? l.text = some (s, r)) :
    ∃ s' r', closeSingle? l'.text = some (s', r') ∧ s.count '"' ≤ s'.count '"' ∧
      (s.count '"' = s'.count '"' → ¬ changed l.number) := by
  by_cases hc : changed l.number
  · obtain ⟨x, hx, hline, hquoted⟩ := (h.quoted hc).closeSingle?
    rw [hline] at hclose
    obtain ⟨⟨s₀, r₀⟩, hspelling, he⟩ := Option.map_eq_some_iff.mp hclose
    cases he
    refine ⟨_, _, by rw [hquoted, hspelling]; rfl, ?_, fun he => ?_⟩
    · simp [hx, Metadata.count_escapeQuotes]
    · simp [hx, Metadata.count_escapeQuotes] at he
  · rw [← h.same hc]
    exact ⟨s, r, hclose, Nat.le_refl _, fun _ => hc⟩

/-- A text in single quotes over several lines shows every line that is changed. -/
theorem gathered_single_twin {ls ls' : List Line} (ht : List.Forall₂ (Twin changed) ls ls')
    {t t' front trailing front' trailing' : Text} {left left' : List Line}
    (hopen : closeSingle? t = none) (hopen' : closeSingle? t' = none)
    (h : gathered quoted? ('\'' :: t) ls = some (front, trailing, left))
    (h' : gathered quoted? ('\'' :: t') ls' = some (front', trailing', left')) :
    ∃ seg, ls = seg ++ left ∧
      front.count '"' + t'.count '"' ≤ front'.count '"' + t.count '"' ∧
      (front.count '"' + t'.count '"' = front'.count '"' + t.count '"' →
        ∀ l ∈ seg, ¬ changed l.number) := by
  induction ht generalizing t t' with
  | nil =>
    rw [gathered_nil (by rw [quoted?_single, hopen]; rfl)] at h
    cases h
  | @cons l l' rest rest' hl hrest ih =>
    have hcount : ∀ u v : Text, (u ++ ' ' :: v).count '"' = u.count '"' + v.count '"' := by simp
    have hnext := closeSingle?_append_of_open hopen l.text
    have hnext' := closeSingle?_append_of_open hopen' l'.text
    rw [gathered_cons (by rw [quoted?_single, hopen]; rfl), List.cons_append] at h
    rw [gathered_cons (by rw [quoted?_single, hopen']; rfl), List.cons_append] at h'
    cases hclose : closeSingle? l.text with
    | none =>
      rw [hclose] at hnext
      rw [hl.closeSingle?_none hclose] at hnext'
      obtain ⟨seg, hseg, hle, heq⟩ := ih hnext hnext' h h'
      obtain ⟨htext, htextEq⟩ := hl.count_text
      rw [hcount, hcount] at hle heq
      refine ⟨l :: seg, by rw [hseg, List.cons_append], by omega, fun he m hm => ?_⟩
      rcases List.mem_cons.mp hm with rfl | hm
      · exact htextEq (by omega)
      · exact heq (by omega) m hm
    | some p =>
      obtain ⟨s, r⟩ := p
      obtain ⟨s', r', hclose', hs, hsEq⟩ := hl.closeSingle?_some hclose
      rw [hclose] at hnext
      rw [hclose'] at hnext'
      rw [gathered_of_some (by rw [quoted?_single, hnext]; rfl), Option.some.injEq] at h
      rw [gathered_of_some (by rw [quoted?_single, hnext']; rfl), Option.some.injEq] at h'
      cases h
      cases h'
      have hmark : ('\'' : Char) ≠ '"' := by decide
      rw [List.count_cons_of_ne hmark, List.count_cons_of_ne hmark, hcount, hcount]
      dsimp only
      refine ⟨[l], rfl, by omega, fun he m hm => ?_⟩
      rw [List.mem_singleton.mp hm]
      exact hsEq (by omega)

/-- In double quotes the quotes of a changed line close the text too early. -/
theorem gathered_double_twin {ls ls' : List Line} (ht : List.Forall₂ (Twin changed) ls ls')
    {t front trailing front' trailing' : Text} {left left' : List Line} (hopen : closeDouble? t = none)
    (h : gathered quoted? ('"' :: t) ls = some (front, trailing, left))
    (h' : gathered quoted? ('"' :: t) ls' = some (front', trailing', left'))
    (hend : isTrailingComment (Text.trim trailing') = true) :
    ∃ seg, ls = seg ++ left ∧ ∀ l ∈ seg, ¬ changed l.number := by
  induction ht generalizing t with
  | nil =>
    rw [gathered_nil (by rw [quoted?_double, hopen]; rfl)] at h
    cases h
  | @cons l l' rest rest' hl hrest ih =>
    have hnext := closeDouble?_append_of_open hopen l.text
    have hnext' := closeDouble?_append_of_open hopen l'.text
    rw [gathered_cons (by rw [quoted?_double, hopen]; rfl), List.cons_append] at h h'
    have hsame : ¬ changed l.number := by
      intro hc
      have hq := hl.quoted hc
      rw [hq.text, closeDouble?_quotedItem] at hnext'
      rw [hq.text, gathered_of_some (by rw [quoted?_double, hnext']; rfl), Option.some.injEq] at h'
      cases h'
      rw [hq.not_trailingComment] at hend
      cases hend
    rw [← hl.same hsame] at h'
    cases hclose : closeDouble? l.text with
    | none =>
      rw [hclose] at hnext
      obtain ⟨seg, hseg, hall⟩ := ih hnext h h'
      refine ⟨l :: seg, by rw [hseg, List.cons_append], fun m hm => ?_⟩
      rcases List.mem_cons.mp hm with rfl | hm
      · exact hsame
      · exact hall m hm
    | some p =>
      rw [hclose] at hnext
      rw [gathered_of_some (by rw [quoted?_double, hnext]; rfl), Option.some.injEq] at h
      cases h
      exact ⟨[l], rfl, fun m hm => by rwa [List.mem_singleton.mp hm]⟩

/-- A quoted text over several lines shows every line that is changed. -/
theorem unchanged_of_readQuoted {c : Char} (hc : Flow.isQuote c = true) {t : Text} {line : Line}
    {seg left ls' left' : List Line} {v : Value} (ht : List.Forall₂ (Twin changed) (seg ++ left) ls')
    (h : (readQuoted (c :: t) line (seg ++ left)).map Read.parts = .ok (v, left))
    (h' : (readQuoted (c :: t) line ls').map Read.parts = .ok (v, left')) :
    ∀ l ∈ seg, ¬ changed l.number := by
  rw [readQuoted_parts] at h h'
  obtain ⟨front, trailing, hg, hv, -⟩ := finish_ok h
  obtain ⟨front', trailing', hg', hv', hf'⟩ := finish_ok h'
  have hend := trailing_of_finish (hf' left')
  cases hq : quoted? (c :: t) with
  | some p =>
    -- closed on its own line, the text takes no other
    rw [gathered_of_some hq, Option.some.injEq, Prod.mk.injEq, Prod.mk.injEq] at hg
    have hnil : seg = [] := List.append_left_eq_self.mp hg.2.2
    simp [hnil]
  | none =>
    rw [Flow.isQuote, Bool.or_eq_true, decide_eq_true_iff, decide_eq_true_iff] at hc
    rcases hc with rfl | rfl
    · have hopen : closeDouble? t = none := Option.map_eq_none_iff.mp hq
      obtain ⟨found, hsplit, hall⟩ := gathered_double_twin ht hopen hg hg' hend
      rwa [List.append_cancel_right hsplit]
    · have hopen : closeSingle? t = none := Option.map_eq_none_iff.mp hq
      obtain ⟨found, hsplit, -, hall⟩ := gathered_single_twin ht hopen hopen hg hg'
      obtain ⟨s, hs, rfl⟩ := Except.map_eq_ok_iff.mp hv
      obtain ⟨s', hs', he⟩ := Except.map_eq_ok_iff.mp hv'
      cases he
      obtain ⟨more, hmore⟩ := gathered_complete hg
      obtain ⟨more', hmore'⟩ := gathered_complete hg'
      rw [List.append_cancel_right hsplit]
      apply hall
      rw [← count_unquoted_single hmore hs, ← count_unquoted_single hmore' hs']

/-! ### Values over several lines -/

/-- Whether the value that starts with this text is a collection in brackets or braces. -/
def opensFlow (t : Text) : Bool := (t.head?.map Flow.isOpening).getD false

/-- A value whose lines all stay is read alike, and the lines behind it are twins. -/
theorem readInline_of_unchanged {text : Text} {line : Line} {parent : Option Nat}
    {seg left ls' left' : List Line} {v v' : Value}
    (ht : List.Forall₂ (Twin changed) (seg ++ left) ls') (hs : ∀ l ∈ seg, ¬ changed l.number)
    (h : (readInline text line parent (seg ++ left)).map Read.parts = .ok (v, left))
    (h' : (readInline text line parent ls').map Read.parts = .ok (v', left')) :
    v = v' ∧ List.Forall₂ (Twin changed) left left' := by
  obtain ⟨seg', tail, rfl, hseg, htail⟩ := append_twin ht
  obtain rfl := eq_of_unchanged hseg hs
  have hread := readInline_congr (s := []) (htail.imp fun _ _ hl => hl.alike) h
  rw [h', List.nil_append, Except.ok.injEq, Prod.mk.injEq] at hread
  exact ⟨hread.1.symm, hread.2 ▸ htail⟩

/-- A text over several lines shows every line that is changed. -/
theorem unchanged_of_readInline {text : Text} {line : Line} {parent : Option Nat}
    {seg left ls' left' : List Line} {v : Value}
    (ht : List.Forall₂ (Twin changed) (seg ++ left) ls') (hflow : opensFlow text = false)
    (h : (readInline text line parent (seg ++ left)).map Read.parts = .ok (v, left))
    (h' : (readInline text line parent ls').map Read.parts = .ok (v, left')) :
    ∀ l ∈ seg, ¬ changed l.number := by
  have hplain : (Except.ok (readPlain text parent (seg ++ left)) : Except ReadError _).map Read.parts =
        .ok (v, left) → (Except.ok (readPlain text parent ls') : Except ReadError _).map Read.parts =
        .ok (v, left') → ∀ l ∈ seg, ¬ changed l.number := by
    intro h h'
    simp only [Except.map, Except.ok.injEq, Read.parts, Prod.mk.injEq] at h h'
    exact unchanged_of_readPlain ht h.2 (h.1.trans h'.1.symm)
  cases text with
  | nil => exact hplain h h'
  | cons c t =>
    obtain ⟨seg', rfl⟩ := readInline_suffix h'
    rw [readInline] at h h'
    split_ifs at h h' with hblock hquote hopening
    · obtain ⟨hd, s, hparse, hseg, rfl, hcount⟩ := readBlock_eq_ok h
      obtain ⟨hd', s', hparse', hseg', he, hother⟩ := readBlock_eq_ok h'
      cases he
      obtain rfl : hd = hd' := Option.some.inj (hparse.symm.trans hparse')
      have htwin : List.Forall₂ (Twin changed) seg seg' := by
        rw [hseg, hseg']
        exact hd.blockLines_forall₂ (fun l l' hl => hl.alike) _ ht
      refine (unchanged_of_sum (f := fun l => l.raw.count '"') ?_ htwin).2 ?_
      · intro l l' hq
        have := hq.marks
        omega
      · have hsum := (hcount '"' (by decide)).symm.trans (hother '"' (by decide))
        simpa [Lines.count, Function.comp_def] using hsum
    · exact unchanged_of_readQuoted hquote ht h h'
    · simp [opensFlow, hopening] at hflow
    · exact hplain h h'

end Twins

end Outline
end TemplateDocs
