import Mathlib
import TemplateDocs.Proofs.Parameter.WrittenEntries

/-!
# Defaults that hold brackets

The brackets around an optional name end at the first closing one, also where that bracket belongs to
the default. The name is found all the same, but what follows the bracket is read as description.
Counting closing brackets shows it: none is left in the default, and the description has them all.
-/
namespace TemplateDocs.Parameter

open Text (isSpace trim Tight)

theorem Matched.mem_closing {opening closing : Char} {t : Text} (h : Matched opening closing t)
    (hopening : opening ∈ t) : closing ∈ t := by
  rw [← List.count_pos_iff, ← h.whole]
  exact List.count_pos_iff.mpr hopening

/-- A description keeps every character of its text but blanks and the dash. -/
theorem count_descriptionOf {c : Char} (hspace : isSpace c = false) (hdash : c ≠ '-') (rest : Text) :
    (descriptionOf rest).count c = rest.count c := by
  unfold descriptionOf
  split
  · next r hr =>
    rw [Text.count_trim hspace, ← Text.count_trimStart hspace rest, hr,
      List.count_cons_of_ne (Ne.symm hdash)]
  · rw [Text.count_trim hspace, Text.count_trimStart hspace]

/-- The text that stands before a default. -/
def beforeDefault (type n : Text) : Text := typePart (some type) ++ '[' :: (n ++ ['='])

theorem heading_withDefault (type n v : Text) :
    heading (some type) (.withDefault n v) = beforeDefault type n ++ (v ++ [']']) := by
  simp [heading, beforeDefault, NameForm.text]

theorem tight_heading_withDefault (type n v : Text) :
    Tight (heading (some type) (.withDefault n v)) := by
  have hbrace : Tight "\x7b".toList := Text.tight_of_trim (by decide)
  have hbracket : Tight "]".toList := Text.tight_of_trim (by decide)
  have hform : heading (some type) (.withDefault n v) =
      "\x7b".toList ++ ((type ++ "\x7d [".toList ++ n ++ '=' :: v) ++ "]".toList) := by
    simp [heading, typePart, NameForm.text]
  rw [hform]
  exact hbrace.around (by decide) hbracket (by decide) _

/-- The name and its default are cut off at the first closing bracket. -/
theorem parse_beforeDefault {type n front rest t : Text} (htype : Matched '\x7b' '\x7d' type)
    {info : TypeInfo} (hinfo : readType type = .ok info) (hn : IsName n) (hfront : ']' ∉ front)
    (ht : trim t = beforeDefault type n ++ (front ++ ']' :: rest)) : parse t = .ok {
      name := n
      description := descriptionOf rest
      names := info.names
      default := some (trim front)
      nullable := info.nullable
      optional := true
      written := beforeDefault type n ++ (front ++ ']' :: rest) } := by
  have hclosed : Closed (some type) := by
    intro t ht
    cases ht
    exact htype
  have hhead : ∀ c ∈ ('[' :: (n ++ '=' :: front ++ ']' :: rest)).head?,
      isSpace c = false ∧ c ≠ '\x7b' := by
    intro c hc
    cases hc
    exact ⟨rfl, by decide⟩
  have hread := parseTrimmed_named hclosed hhead (splitName_default hn hfront rest) hn
  have hform : beforeDefault type n ++ (front ++ ']' :: rest) =
      typePart (some type) ++ '[' :: (n ++ '=' :: front ++ ']' :: rest) := by
    simp [beforeDefault]
  rw [parse, ht, hform, hread, typeOf, hinfo]
  simp [Except.map]

/-! ### The first closing bracket -/

section FirstBracket

variable {v front rest after : Text} (hcut : v ++ ']' :: after = front ++ ']' :: rest)
  (hfront : ']' ∉ front)

include hcut hfront

theorem first_bracket_of_not_mem (h : ']' ∉ v) : front = v ∧ rest = after := by
  have hfirst := Text.cut?_char_append h after
  rw [hcut, Text.cut?_char_append hfront] at hfirst
  cases hfirst
  exact ⟨rfl, rfl⟩

/-- No closing bracket is lost, and only the first of them is not handed on. -/
theorem count_rest : rest.count ']' = v.count ']' + after.count ']' := by
  have := congrArg (List.count ']') hcut
  simp only [List.count_append, List.count_cons_self, List.count_eq_zero_of_not_mem hfront] at this
  omega

theorem trim_front_eq_iff (hv : Tight v) : trim front = v ↔ ']' ∉ v := by
  constructor
  · intro h hmem
    rw [← h] at hmem
    exact hfront (Text.mem_trim hmem)
  · intro h
    rw [(first_bracket_of_not_mem hcut hfront h).1, Text.trim_of_tight hv]

theorem descriptionOf_rest_eq_iff {gap d : Text} (hafter : after = " -".toList ++ (gap ++ d))
    (hgap : ∀ c ∈ gap, isSpace c = true) (hd : Tight d) : descriptionOf rest = d ↔ ']' ∉ v := by
  constructor
  · intro h
    have hcount := count_rest hcut hfront
    have hkept := count_descriptionOf (c := ']') rfl (by decide) rest
    rw [hafter, List.count_append, List.count_append, Text.count_blanks rfl hgap,
      show " -".toList.count ']' = 0 by decide] at hcount
    rw [h] at hkept
    exact List.count_eq_zero.mp (by omega)
  · intro h
    rw [(first_bracket_of_not_mem hcut hfront h).2, hafter, descriptionOf_dash hgap hd]

end FirstBracket

/-- An entry is accepted whatever its default holds, and its name is read. The default ends at the
first closing bracket and the description starts behind it. So either of them is read as it was
written exactly if the default holds no closing bracket: a default with a pair of brackets in it is
never read whole, and the description is never the one given. -/
theorem default_whole_iff {type n v d : Text} (htype : Matched '\x7b' '\x7d' type) {info : TypeInfo}
    (hinfo : readType type = .ok info) (hn : IsName n) (hv : Tight v) (hd : Tight d) :
    ∃ p front rest, parse (entryText (some type) (.withDefault n v) d) = .ok p ∧ p.name = n ∧
      p.written = beforeDefault type n ++ (front ++ ']' :: rest) ∧ ']' ∉ front ∧
      p.default = some (trim front) ∧ p.description = descriptionOf rest ∧
      (p.default = some v ↔ ']' ∉ v) ∧ (p.description = d ↔ ']' ∉ v) ∧
      (Matched '[' ']' v → '[' ∈ v → p.default ≠ some v ∧ p.description ≠ d) := by
  obtain ⟨gap, hgap, htrim⟩ := trim_described (tight_heading_withDefault type n v)
    (by simp [heading, NameForm.text]) hd
  obtain ⟨front, rest, hcut, hfront⟩ : ∃ front rest,
      v ++ ']' :: (" -".toList ++ (gap ++ d)) = front ++ ']' :: rest ∧ ']' ∉ front :=
    List.eq_append_cons_of_mem (by simp)
  have hwritten : trim (entryText (some type) (.withDefault n v) d) =
      beforeDefault type n ++ (front ++ ']' :: rest) := by
    rw [← hcut, entryText, htrim, heading_withDefault]
    simp
  have hdefault : some (trim front) = some v ↔ ']' ∉ v := by
    rw [Option.some.injEq]
    exact trim_front_eq_iff hcut hfront hv
  have hdescription := descriptionOf_rest_eq_iff hcut hfront rfl hgap hd
  have hparse := parse_beforeDefault htype hinfo hn hfront hwritten
  refine ⟨_, front, rest, hparse, rfl, rfl, hfront, rfl, rfl, hdefault, hdescription, ?_⟩
  intro hmatched hopening
  have hclosing := hmatched.mem_closing hopening
  exact ⟨fun h => hdefault.mp h hclosing, fun h => hdescription.mp h hclosing⟩

theorem default_whole_iff_nestedDefault :
    ∃ p, parse "\x7bArray\x7d [items=[1, [2]]] - nested - items".toList = .ok p ∧
      p.name = "items".toList ∧ p.default ≠ some "[1, [2]]".toList ∧
      p.description ≠ "nested - items".toList := by
  have hinfo : readType "Array".toList = .ok ⟨.single "Array".toList, false, false⟩ := by decide +kernel
  have hv : Tight "[1, [2]]".toList := Text.tight_of_trim (by decide +kernel)
  have hd : Tight "nested - items".toList := Text.tight_of_trim (by decide +kernel)
  have hn : IsName "items".toList := by decide +kernel
  obtain ⟨p, -, -, hparse, hname, -, -, -, -, -, -, hlost⟩ :=
    default_whole_iff (by decide) hinfo hn hv hd
  have htext : entryText (some "Array".toList) (.withDefault "items".toList "[1, [2]]".toList)
      "nested - items".toList = "\x7bArray\x7d [items=[1, [2]]] - nested - items".toList := by
    decide +kernel
  rw [htext] at hparse
  exact ⟨p, hparse, hname, hlost (by decide) (by decide)⟩

/-- The empty list as a default is cut in two. -/
theorem default_cut_emptyList :
    Matched '[' ']' "[]".toList ∧ '[' ∈ "[]".toList ∧
    parse "\x7bArray\x7d [items=[]] - all items".toList = .ok {
      name := "items".toList
      description := "] - all items".toList
      names := .single "Array".toList
      default := some "[".toList
      nullable := false
      optional := true
      written := "\x7bArray\x7d [items=[]] - all items".toList } := by
  decide +kernel

end TemplateDocs.Parameter
