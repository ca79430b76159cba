import Mathlib
import TemplateDocs.Parameter.Basic
import TemplateDocs.Proofs.Outline.Words
import TemplateDocs.Proofs.Text

/-!
# Parameters as they are written

An entry is written as a type in braces, a name and a description after a dash. Reading takes it apart
by four cuts: at the brace that closes the type, at the square bracket and the equals sign around a
default, at the end of the name, and at the dash. Each cut finds its place whatever the parts hold.
-/
namespace TemplateDocs

namespace Text

theorem cut?_char_append {c : Char} {front : Text} (h : c ∉ front) (rest : Text) :
    cut? [c] (front ++ c :: rest) = some (front, rest) := by
  induction front with
  | nil => simp [cut?, after?]
  | cons d front ih =>
    rw [List.mem_cons, not_or] at h
    have hnext : after? [c] (d :: (front ++ c :: rest)) = none := by simp [after?, h.1]
    rw [List.cons_append, cut?, hnext, ih h.2]
    rfl

theorem cut?_char_of_not_mem {c : Char} {t : Text} (h : c ∉ t) : cut? [c] t = none := by
  induction t with
  | nil => rfl
  | cons d t ih =>
    rw [List.mem_cons, not_or] at h
    have hnext : after? [c] (d :: t) = none := by simp [after?, h.1]
    rw [cut?, hnext, ih h.2]
    rfl

/-- Only the ends of a text decide whether blanks surround it. -/
theorem Tight.around {s t : Text} (hs : Tight s) (hne : s ≠ []) (ht : Tight t) (hne' : t ≠ [])
    (middle : Text) : Tight (s ++ (middle ++ t)) := by
  constructor
  · rw [List.head?_append_of_ne_nil _ hne]
    exact hs.head
  · rw [List.getLast?_append_of_ne_nil _ (by simp [hne']), List.getLast?_append_of_ne_nil _ hne']
    exact ht.last

end Text

namespace Parameter

open Text (isSpace trim trimStart trimEnd Tight)

/-! ### Types in braces -/

/-- Brackets of one pair match: none closes before it opens, and none is left open. -/
structure Matched (opening closing : Char) (t : Text) : Prop where
  front : ∀ s, s <+: t → s.count closing ≤ s.count opening
  whole : t.count opening = t.count closing

instance (opening closing : Char) : DecidablePred (Matched opening closing) := fun t =>
  decidable_of_iff ((∀ s ∈ t.inits, s.count closing ≤ s.count opening) ∧
      t.count opening = t.count closing)
    ⟨fun h => ⟨fun s hs => h.1 s ((List.mem_inits s t).mpr hs), h.2⟩,
      fun h => ⟨fun s hs => h.front s ((List.mem_inits s t).mp hs), h.whole⟩⟩

/-- The search for the closing brace passes over a text in which the depth never falls to zero. -/
theorem bracedType?_append {t : Text} {depth : Nat}
    (h : ∀ s, s <+: t → s.count '\x7d' < s.count '\x7b' + depth) (rest : Text) :
    bracedType? depth (t ++ rest) =
      (bracedType? (depth + t.count '\x7b' - t.count '\x7d') rest).map fun r => (t ++ r.1, r.2) := by
  induction t generalizing depth with
  | nil => simp
  | cons c t ih =>
    have hfront : ∀ s, s <+: t → (c :: s).count '\x7d' < (c :: s).count '\x7b' + depth :=
      fun s hs => h (c :: s) (List.prefix_cons_inj c |>.mpr hs)
    rw [List.cons_append, bracedType?]
    by_cases hopen : c = '\x7b'
    · subst hopen
      have hdeeper : ∀ s, s <+: t → s.count '\x7d' < s.count '\x7b' + (depth + 1) := by
        intro s hs
        have := hfront s hs
        simp only [List.count_cons_self, List.count_cons_of_ne (by decide : '\x7b' ≠ '\x7d')] at this
        omega
      have hdepth : depth + 1 + t.count '\x7b' = depth + (t.count '\x7b' + 1) := by omega
      rw [if_pos rfl, ih hdeeper, List.count_cons_self,
        List.count_cons_of_ne (by decide : '\x7b' ≠ '\x7d'), hdepth, Option.map_map]
      rfl
    · by_cases hclose : c = '\x7d'
      · subst hclose
        have hopened : 1 < depth := by simpa using hfront [] List.nil_prefix
        have hless : ∀ s, s <+: t → s.count '\x7d' < s.count '\x7b' + (depth - 1) := by
          intro s hs
          have := hfront s hs
          simp only [List.count_cons_self, List.count_cons_of_ne (by decide : '\x7d' ≠ '\x7b')] at this
          omega
        have hdepth : depth - 1 + t.count '\x7b' - t.count '\x7d' =
            depth + t.count '\x7b' - (t.count '\x7d' + 1) := by omega
        rw [if_neg (by decide), if_pos rfl, if_neg (by omega), ih hless, List.count_cons_self,
          List.count_cons_of_ne (by decide : '\x7d' ≠ '\x7b'), hdepth, Option.map_map]
        rfl
      · have hsame : ∀ s, s <+: t → s.count '\x7d' < s.count '\x7b' + depth := by
          intro s hs
          have := hfront s hs
          rwa [List.count_cons_of_ne hclose, List.count_cons_of_ne hopen] at this
        rw [if_neg hopen, if_neg hclose, ih hsame, List.count_cons_of_ne hclose,
          List.count_cons_of_ne hopen, Option.map_map]
        rfl

theorem Matched.bracedType? {t : Text} (h : Matched '\x7b' '\x7d' t) (rest : Text) :
    bracedType? 1 (t ++ '\x7d' :: rest) = some (t, rest) := by
  have hopen : ∀ s, s <+: t → s.count '\x7d' < s.count '\x7b' + 1 := fun s hs =>
    Nat.lt_succ_of_le (h.front s hs)
  have hdepth : 1 + t.count '\x7b' - t.count '\x7d' = 1 := by
    have := h.whole
    omega
  rw [bracedType?_append hopen, hdepth]
  simp [Parameter.bracedType?]

/-- The type of an entry as it stands before the name; an entry may be without one. -/
def typePart (type : Option Text) : Text :=
  type.elim [] fun t => '\x7b' :: (t ++ "\x7d ".toList)

/-- The braces of the type, if there is one, match. -/
def Closed (type : Option Text) : Prop := ∀ t ∈ type, Matched '\x7b' '\x7d' t

/-- The type is cut off at the brace that closes it. -/
theorem splitType_typePart {type : Option Text} (h : Closed type) {t : Text}
    (hhead : ∀ c ∈ t.head?, isSpace c = false ∧ c ≠ '\x7b') :
    ∃ rest, splitType (typePart type ++ t) = .ok (type, rest) ∧ trimStart rest = t := by
  have hstart : trimStart t = t := Text.trimStart_of_head fun c hc => (hhead c hc).1
  cases type with
  | none =>
    refine ⟨t, ?_, hstart⟩
    cases t with
    | nil => rfl
    | cons c t =>
      unfold splitType
      split
      · next heq => exact absurd (List.cons.inj heq).1 (hhead c rfl).2
      · rfl
  | some type =>
    have hcut := (h type rfl).bracedType? (' ' :: t)
    refine ⟨' ' :: t, ?_, (@Text.trimStart_append [' '] (by simp; decide) t).trans hstart⟩
    have hform : typePart (some type) ++ t = '\x7b' :: (type ++ '\x7d' :: ' ' :: t) := by
      simp [typePart]
    rw [hform, splitType, hcut]

/-! ### Names -/

structure IsName (n : Text) : Prop where
  start : n.head?.any isNameStart = true
  chars : ∀ c ∈ n, isNameChar c = true

instance : DecidablePred IsName := fun n =>
  decidable_of_iff (n.head?.any isNameStart = true ∧ n.all isNameChar = true)
    ⟨fun h => ⟨h.1, List.all_eq_true.mp h.2⟩, fun h => ⟨h.start, List.all_eq_true.mpr h.chars⟩⟩

theorem isSpace_of_isNameChar {c : Char} (h : isNameChar c = true) : isSpace c = false := by
  simp only [isNameChar, Bool.or_eq_true, decide_eq_true_eq] at h
  rcases h with (((h | rfl) | rfl) | rfl) | rfl
  · exact Text.isSpace_of_isWordChar h
  all_goals rfl

theorem IsName.ne_nil {n : Text} (h : IsName n) : n ≠ [] := by
  rintro rfl
  cases h.start

theorem IsName.tight {n : Text} (h : IsName n) : Tight n :=
  Text.tight_of_no_space fun c hc => isSpace_of_isNameChar (h.chars c hc)

theorem IsName.not_mem {n : Text} (h : IsName n) {c : Char} (hc : isNameChar c = false) : c ∉ n := by
  intro hm
  rw [h.chars c hm] at hc
  cases hc

/-- A default ends at the first closing bracket. -/
theorem splitName_default {n value : Text} (hn : IsName n) (hvalue : ']' ∉ value) (rest : Text) :
    splitName ('[' :: (n ++ '=' :: value ++ ']' :: rest)) = .ok ⟨n, some (trim value), true, rest⟩ := by
  have hinner : ']' ∉ n ++ '=' :: value := by simp [hn.not_mem (c := ']') rfl, hvalue]
  have hcut := Text.cut?_char_append hinner rest
  have hassigned := Text.cut?_char_append (hn.not_mem (c := '=') rfl) value
  rw [splitName]
  simp only [hcut, hassigned, Text.trim_of_tight hn.tight]

/-- The ways to write a name: as it is, as optional, or as optional with a default. -/
inductive NameForm where
  | plain (name : Text)
  | bracketed (name : Text)
  | withDefault (name value : Text)

namespace NameForm

def name : NameForm → Text
  | .plain n | .bracketed n | .withDefault n _ => n

def default : NameForm → Option Text
  | .plain _ | .bracketed _ => none
  | .withDefault _ v => some v

def isBracketed : NameForm → Bool
  | .plain _ => false
  | .bracketed _ | .withDefault _ _ => true

def text : NameForm → Text
  | .plain n => n
  | .bracketed n => '[' :: (n ++ [']'])
  | .withDefault n v => '[' :: (n ++ '=' :: (v ++ [']']))

/-- A default has no blanks around it and does not hold the bracket that would end it. -/
def Valid : NameForm → Prop
  | .plain n | .bracketed n => IsName n
  | .withDefault n v => IsName n ∧ ']' ∉ v ∧ Tight v

theorem Valid.isName {form : NameForm} (h : form.Valid) : IsName form.name := by
  cases form with
  | plain | bracketed => exact h
  | withDefault => exact h.1

/-- A form starts with its bracket or with the first character of its name. -/
theorem Valid.head {form : NameForm} (h : form.Valid) :
    ∀ c ∈ form.text.head?, isSpace c = false ∧ c ≠ '\x7b' := by
  cases form with
  | plain n =>
    intro c hc
    have hchar := IsName.chars h c (List.mem_of_mem_head? hc)
    refine ⟨isSpace_of_isNameChar hchar, ?_⟩
    rintro rfl
    cases hchar
  | bracketed n | withDefault n v =>
    intro c hc
    cases hc
    exact ⟨rfl, by decide⟩

theorem Valid.ne_nil {form : NameForm} (h : form.Valid) : form.text ≠ [] := by
  cases form with
  | plain n => exact IsName.ne_nil h
  | bracketed | withDefault => exact List.cons_ne_nil _ _

theorem Valid.tight {form : NameForm} (h : form.Valid) : Tight form.text := by
  refine ⟨fun c hc => (h.head c hc).1, ?_⟩
  cases form with
  | plain n => exact (IsName.tight h).last
  | bracketed n =>
    intro c hc
    rw [text, ← List.cons_append, List.getLast?_concat] at hc
    cases hc
    rfl
  | withDefault n v =>
    intro c hc
    have hform : (withDefault n v).text = '[' :: (n ++ '=' :: v) ++ [']'] := by simp [text]
    rw [hform, List.getLast?_concat] at hc
    cases hc
    rfl

/-- The name and its default are cut off where the form ends. -/
theorem Valid.splitName {form : NameForm} (h : form.Valid) {rest : Text}
    (hrest : ∀ c ∈ rest.head?, isNameChar c = false) :
    splitName (form.text ++ rest) = .ok ⟨form.name, form.default, form.isBracketed, rest⟩ := by
  cases form with
  | plain n =>
    have hn : IsName n := h
    have htake : (n ++ rest).takeWhile isNameChar = n := by
      rw [List.takeWhile_append_of_pos hn.chars]
      cases rest with
      | nil => simp
      | cons c rest => simp [hrest c rfl]
    have hdrop : (n ++ rest).dropWhile isNameChar = rest := by
      rw [List.dropWhile_append_of_pos hn.chars]
      cases rest with
      | nil => rfl
      | cons c rest => simp [hrest c rfl]
    have hplain : Parameter.splitName (n ++ rest) = .ok ⟨(n ++ rest).takeWhile isNameChar, none, false,
        (n ++ rest).dropWhile isNameChar⟩ := by
      unfold Parameter.splitName
      split
      · next r heq =>
        have hbracket : '[' ∈ n := by
          obtain ⟨c, n, rfl⟩ := List.exists_cons_of_ne_nil hn.ne_nil
          rw [(List.cons.inj heq).1]
          exact List.mem_cons_self
        exact absurd hbracket (hn.not_mem rfl)
      · rfl
    rw [text, hplain, htake, hdrop]
    rfl
  | bracketed n =>
    have hn : IsName n := h
    have hcut := Text.cut?_char_append (hn.not_mem (c := ']') rfl) rest
    have hvalue := Text.cut?_char_of_not_mem (hn.not_mem (c := '=') rfl)
    have hform : (bracketed n).text ++ rest = '[' :: (n ++ ']' :: rest) := by simp [text]
    rw [hform, Parameter.splitName]
    simp only [hcut, hvalue, Text.trim_of_tight hn.tight]
    rfl
  | withDefault n v =>
    obtain ⟨hn, hbracket, htight⟩ := h
    have hform : (withDefault n v).text ++ rest = '[' :: (n ++ '=' :: v ++ ']' :: rest) := by
      simp [text]
    rw [hform, splitName_default hn hbracket, Text.trim_of_tight htight]
    rfl

end NameForm

/-! ### Whole entries -/

/-- With a name in front of the rest, the type alone decides whether an entry is accepted. -/
theorem parseTrimmed_named {type : Option Text} (htype : Closed type) {t : Text}
    (hhead : ∀ c ∈ t.head?, isSpace c = false ∧ c ≠ '\x7b') {named : Named}
    (hnamed : splitName t = .ok named) (hname : IsName named.name) :
    parseTrimmed (typePart type ++ t) = (typeOf type).map fun info => {
      name := named.name
      description := descriptionOf named.rest
      names := info.names
      default := named.default
      nullable := info.nullable
      optional := info.optional || named.bracketed
      written := typePart type ++ t } := by
  obtain ⟨after, hsplit, hafter⟩ := splitType_typePart htype hhead
  have hstart : (named.name.head?.map isNameStart).getD false = true := by
    have hfirst := hname.start
    cases hc : named.name.head? with
    | none => rw [hc] at hfirst; cases hfirst
    | some c => rwa [hc] at hfirst
  unfold parseTrimmed
  simp only [hsplit, bind, Except.bind, hafter, hnamed, hstart]
  cases typeOf type <;> rfl

/-- The entry without its description. -/
def heading (type : Option Text) (form : NameForm) : Text := typePart type ++ form.text

/-- What is to be read from a heading and the text after it, the type being known. -/
def ofHeading (type : Option Text) (form : NameForm) (rest : Text) (info : TypeInfo) : Parameter where
  name := form.name
  description := descriptionOf rest
  names := info.names
  default := form.default
  nullable := info.nullable
  optional := info.optional || form.isBracketed
  written := heading type form ++ rest

theorem parseTrimmed_heading {type : Option Text} (htype : Closed type) {form : NameForm}
    (hform : form.Valid) {rest : Text} (hrest : ∀ c ∈ rest.head?, isNameChar c = false) :
    parseTrimmed (heading type form ++ rest) = (typeOf type).map (ofHeading type form rest) := by
  have hhead : ∀ c ∈ (form.text ++ rest).head?, isSpace c = false ∧ c ≠ '\x7b' := by
    rw [List.head?_append_of_ne_nil _ hform.ne_nil]
    exact hform.head
  have hread := parseTrimmed_named htype hhead (hform.splitName hrest) hform.isName
  rw [← List.append_assoc] at hread
  exact hread

theorem heading_ne_nil (type : Option Text) {form : NameForm} (h : form.Valid) :
    heading type form ≠ [] := by
  simp [heading, h.ne_nil]

theorem tight_heading (type : Option Text) {form : NameForm} (h : form.Valid) :
    Tight (heading type form) := by
  cases type with
  | none => exact h.tight
  | some type =>
    have hbrace : Tight "\x7b".toList := Text.tight_of_trim (by decide)
    have hform : heading (some type) form =
        "\x7b".toList ++ ((type ++ "\x7d ".toList) ++ form.text) := by
      simp [heading, typePart]
    rw [hform]
    exact hbrace.around (by decide) h.tight h.ne_nil _

theorem parse_heading {type : Option Text} (htype : Closed type) {form : NameForm}
    (hform : form.Valid) {t rest : Text} (ht : trim t = heading type form ++ rest)
    (hrest : ∀ c ∈ rest.head?, isNameChar c = false) {info : TypeInfo} (hinfo : typeOf type = .ok info) :
    parse t = .ok (ofHeading type form rest info) := by
  have := parseTrimmed_heading htype hform hrest
  rw [parse, ht, this, hinfo]
  rfl

/-- An entry with a description. -/
def entryText (type : Option Text) (form : NameForm) (description : Text) : Text :=
  heading type form ++ (" - ".toList ++ description)

/-- The blank after the dash is lost only if no description follows it. -/
theorem trim_described {h : Text} (htight : Tight h) (hne : h ≠ []) {d : Text} (hd : Tight d) :
    ∃ gap : Text, (∀ c ∈ gap, isSpace c = true) ∧
      trim (h ++ (" - ".toList ++ d)) = h ++ (" -".toList ++ (gap ++ d)) := by
  cases d with
  | nil =>
    have hdash : Tight "-".toList := Text.tight_of_trim (by decide)
    have hcore := htight.around hne hdash (by decide) " ".toList
    have hsplit : h ++ (" - ".toList ++ []) = [] ++ (h ++ (" ".toList ++ "-".toList)) ++ [' '] := by
      simp
    refine ⟨[], by simp, ?_⟩
    rw [hsplit, Text.trim_pad (by simp) (by simp; decide) (by simp) hcore]
    rfl
  | cons c d =>
    refine ⟨[' '], by simp; decide, ?_⟩
    exact Text.trim_of_tight (htight.around hne hd (List.cons_ne_nil c d) " - ".toList)

theorem trim_entryText (type : Option Text) {form : NameForm} (hform : form.Valid) {d : Text}
    (hd : Tight d) : ∃ gap : Text, (∀ c ∈ gap, isSpace c = true) ∧
      trim (entryText type form d) = heading type form ++ (" -".toList ++ (gap ++ d)) :=
  trim_described (tight_heading type hform) (heading_ne_nil type hform) hd

theorem descriptionOf_dash {gap d : Text} (hgap : ∀ c ∈ gap, isSpace c = true) (hd : Tight d) :
    descriptionOf (" -".toList ++ (gap ++ d)) = d :=
  (Text.trim_append_left hgap d).trans (Text.trim_of_tight hd)

/-- What an annotation says about a parameter: nothing at all, or what its type is read as. -/
inductive Annotates : Option Text → TypeInfo → Prop
  | absent : Annotates none ⟨.single [], false, false⟩
  | braces {t : Text} {info : TypeInfo} (matched : Matched '\x7b' '\x7d' t)
      (accepted : readType t = .ok info) : Annotates (some t) info

theorem Annotates.closed {type : Option Text} {info : TypeInfo} (h : Annotates type info) :
    Closed type := by
  intro t ht
  cases h with
  | absent => cases ht
  | braces matched _ =>
    cases ht
    exact matched

theorem Annotates.typeOf {type : Option Text} {info : TypeInfo} (h : Annotates type info) :
    typeOf type = .ok info := by
  cases h with
  | absent => rfl
  | braces _ accepted => rw [Parameter.typeOf, accepted]

theorem parse_entryText {type : Option Text} {info : TypeInfo} (htype : Annotates type info)
    {form : NameForm} (hform : form.Valid) {d : Text} (hd : Tight d) :
    parse (entryText type form d) = .ok {
      name := form.name
      description := d
      names := info.names
      default := form.default
      nullable := info.nullable
      optional := info.optional || form.isBracketed
      written := trim (entryText type form d) } := by
  obtain ⟨gap, hgap, htrim⟩ := trim_entryText type hform hd
  have hrest : ∀ c ∈ (" -".toList ++ (gap ++ d)).head?, isNameChar c = false := by
    intro c hc
    cases hc
    rfl
  rw [parse_heading htype.closed hform htrim hrest htype.typeOf, ofHeading, descriptionOf_dash hgap hd,
    htrim]

/-- The type holds braces, the name a dash and a dot, the default the marks around it, and the
description another dash. -/
theorem parse_entryText_nestedMarks :
    parse "\x7b?(A|\x7bb: \x7bc: D\x7d\x7d)\x7d [data-x.y=[k=1, \x7b] - first - second".toList = .ok {
      name := "data-x.y".toList
      description := "first - second".toList
      names := .union ["A".toList, "Object".toList]
      default := some "[k=1, \x7b".toList
      nullable := true
      optional := true
      written :=
        "\x7b?(A|\x7bb: \x7bc: D\x7d\x7d)\x7d [data-x.y=[k=1, \x7b] - first - second".toList } := by
  have htype : Annotates (some "?(A|\x7bb: \x7bc: D\x7d\x7d)".toList)
      ⟨.union ["A".toList, "Object".toList], true, false⟩ :=
    .braces (by decide +kernel) (by decide +kernel)
  have hform : (NameForm.withDefault "data-x.y".toList "[k=1, \x7b".toList).Valid :=
    ⟨by decide +kernel, by decide +kernel, Text.tight_of_trim (by decide +kernel)⟩
  have hd : Tight "first - second".toList := Text.tight_of_trim (by decide +kernel)
  have hread := parse_entryText htype hform hd
  have htext : entryText (some "?(A|\x7bb: \x7bc: D\x7d\x7d)".toList)
      (.withDefault "data-x.y".toList "[k=1, \x7b".toList) "first - second".toList =
        "\x7b?(A|\x7bb: \x7bc: D\x7d\x7d)\x7d [data-x.y=[k=1, \x7b] - first - second".toList := by
    decide +kernel
  rw [htext] at hread
  exact hread

end Parameter
end TemplateDocs
