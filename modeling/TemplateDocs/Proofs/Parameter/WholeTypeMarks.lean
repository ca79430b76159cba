import Mathlib
import TemplateDocs.Proofs.Parameter.TypeGrammar
import TemplateDocs.Proofs.Parameter.WrittenEntries

/-!
# Marks on a whole type

A type is marked as optional by `=` after it and as nullable by `?` before it. The mark is bound to the
innermost type that ends or starts there, and what encloses that type hands the mark on or loses it: a
union loses both marks, and a function loses those of its result.
-/
namespace TemplateDocs.Parameter

def equalsToken : Token := ⟨.equals, ['=']⟩

def questionToken : Token := ⟨.question, ['?']⟩

/-! ### The tokens of a marked type -/

theorem nameRun_equals (t : Text) : nameRun (t ++ ['=']) = ((nameRun t).1, (nameRun t).2 ++ ['=']) := by
  have htail : isNameTail '=' = false := by decide
  have hhead : isNameHead '=' = false := by decide
  fun_induction nameRun t with
  | case1 => simp [nameRun, htail]
  | case2 c hc => simp [nameRun, hc, htail]
  | case3 c hc => simp [nameRun, hc, hhead]
  | case4 c d t hc ih =>
    rw [List.cons_append, List.cons_append, nameRun, if_pos hc, ← List.cons_append, ih]
  | case5 c d t hc => rw [List.cons_append, List.cons_append, nameRun, if_neg hc]

theorem stringRun_escape (quote c : Char) (t : Text) :
    (stringRun quote ('\\' :: c :: t)).toOption = if c = '\n' then none
      else (stringRun quote t).toOption.map fun r => ('\\' :: c :: r.1, r.2) := by
  rw [stringRun]
  split_ifs with hc
  · rfl
  · cases stringRun quote t <;> rfl

theorem stringRun_step {quote c : Char} {t : Text} (h : c ≠ '\\' ∨ t = []) :
    (stringRun quote (c :: t)).toOption = if c = quote then some ([c], t)
      else (stringRun quote t).toOption.map fun r => (c :: r.1, r.2) := by
  rw [stringRun.eq_3]
  · split_ifs with hc
    · rfl
    · cases stringRun quote t <;> rfl
  · rintro d r rfl rfl
    simp at h

/-- An equals sign closes no string and escapes nothing that could close one. -/
theorem stringRun_equals {quote : Char} (h : quote = '"' ∨ quote = '\'') (t : Text) :
    (stringRun quote (t ++ ['='])).toOption =
      (stringRun quote t).toOption.map fun r => (r.1, r.2 ++ ['=']) := by
  have hne : '=' ≠ quote ∧ '\\' ≠ quote := by
    rcases h with rfl | rfl <;> decide
  match t with
  | [] =>
    rw [List.nil_append, stringRun_step (.inr rfl), if_neg hne.1]
    rfl
  | c :: t =>
    have ih := stringRun_equals h t
    by_cases hc : c = '\\'
    · subst hc
      cases t with
      | nil =>
        rw [List.cons_append, List.nil_append, stringRun_escape, stringRun_step (.inr rfl), if_neg hne.2]
        rfl
      | cons d t =>
        have ih := stringRun_equals h t
        rw [List.cons_append, List.cons_append, stringRun_escape, stringRun_escape, ih]
        split_ifs with hd
        · rfl
        · rw [Option.map_map, Option.map_map]
          rfl
    · rw [List.cons_append, stringRun_step (.inl hc), stringRun_step (.inl hc), ih]
      split_ifs with hquote
      · rfl
      · rw [Option.map_map, Option.map_map]
        rfl

theorem isDigit_head_equals (t : Text) :
    ((t ++ ['=']).head?.map Text.isDigit).getD false = (t.head?.map Text.isDigit).getD false := by
  have hdigit : Text.isDigit '=' = false := by decide
  cases t <;> simp [hdigit]

theorem digits_equals (t : Text) :
    (t ++ ['=']).takeWhile Text.isDigit = t.takeWhile Text.isDigit ∧
      (t ++ ['=']).dropWhile Text.isDigit = t.dropWhile Text.isDigit ++ ['='] := by
  have hdigit : Text.isDigit '=' = false := by decide
  induction t with
  | nil => simp [hdigit]
  | cons d t ih => cases hd : Text.isDigit d <;> simp [hd, ih]

theorem fractionRun_of_ne {t : Text} (h : ∀ r, t ≠ '.' :: r) : fractionRun t = ([], t) := by
  unfold fractionRun
  split
  · exact absurd rfl (h _)
  · rfl

theorem fractionRun_equals (t : Text) :
    fractionRun (t ++ ['=']) = ((fractionRun t).1, (fractionRun t).2 ++ ['=']) := by
  by_cases hpoint : ∃ r, t = '.' :: r
  · obtain ⟨r, rfl⟩ := hpoint
    simp only [List.cons_append, fractionRun, isDigit_head_equals, digits_equals]
    split_ifs <;> rfl
  · have hne : ∀ r, t ++ ['='] ≠ '.' :: r := by
      intro r hr
      cases t with
      | nil => cases hr
      | cons c t => exact hpoint ⟨t, by rw [(List.cons.inj hr).1]⟩
    rw [fractionRun_of_ne hne, fractionRun_of_ne (by simpa using hpoint)]

theorem next_quote {c : Char} (h : c = '"' ∨ c = '\'') (t : Text) :
    (next c t).toOption = (stringRun c t).toOption.map fun r => (⟨.literal, c :: r.1⟩, r.2) := by
  have hplain : singleKind? c = none ∧ c ≠ '.' ∧ c ≠ '[' ∧ isNameHead c = false := by
    rcases h with rfl | rfl <;> decide
  obtain ⟨hsingle, hdot, hopen, hname⟩ := hplain
  simp only [next, hsingle, if_neg hdot, if_neg hopen, hname, if_pos h]
  cases stringRun c t <;> rfl

theorem next_dot_equals (t : Text) :
    (next '.' (t ++ ['='])).toOption = (next '.' t).toOption.map fun r => (r.1, r.2 ++ ['=']) := by
  have hsingle : singleKind? '.' = none := by decide
  simp only [next, hsingle, if_pos]
  rcases t with _ | ⟨d, t⟩
  · rfl
  · by_cases hopen : d = '<'
    · subst hopen
      rfl
    · by_cases hdot : d = '.'
      · subst hdot
        rcases t with _ | ⟨e, t⟩
        · rfl
        · by_cases he : e = '.'
          · subst he
            rfl
          · simp [he, Except.toOption]
      · simp [hopen, hdot, Except.toOption]

/-- An equals sign is a token of its own after any other token. -/
theorem next_equals (c : Char) (t : Text) :
    (next c (t ++ ['='])).toOption = (next c t).toOption.map fun r => (r.1, r.2 ++ ['=']) := by
  by_cases hquote : c = '"' ∨ c = '\''
  · rw [next_quote hquote, next_quote hquote, stringRun_equals hquote, Option.map_map, Option.map_map]
    rfl
  by_cases hdot : c = '.'
  · rw [hdot, next_dot_equals]
  cases hsingle : singleKind? c with
  | some kind => simp [next, hsingle, Except.toOption]
  | none =>
    simp only [next, hsingle, isDigit_head_equals, digits_equals, fractionRun_equals, nameRun_equals,
      if_neg hquote, if_neg hdot]
    by_cases hopen : c = '['
    · rw [if_pos hopen, if_pos hopen]
      cases t with
      | nil => rfl
      | cons d t =>
        by_cases hd : d = ']'
        · subst hd
          rfl
        · simp [hd, Except.toOption]
    · rw [if_neg hopen, if_neg hopen]
      split_ifs <;> rfl

theorem tokens_separator {c : Char} (h : isSeparator c = true) (t : Text) :
    tokens (c :: t) = tokens t := by
  rw [tokens, if_pos h]

theorem tokens_next {c : Char} (h : isSeparator c = false) (t : Text) :
    (tokens (c :: t)).toOption =
      (next c t).toOption.bind fun r => (tokens r.2).toOption.map (r.1 :: ·) := by
  rw [tokens, if_neg (by simp [h])]
  split
  · next s hnext => rw [hnext]; rfl
  · next k r hnext =>
    have hsome : (next c t).toOption = some (k, r) := by rw [hnext]; rfl
    rw [hsome, Option.bind_some]
    cases tokens r <;> rfl

theorem tokens_equals (t : Text) :
    (tokens (t ++ ['='])).toOption = (tokens t).toOption.map (· ++ [equalsToken]) := by
  induction hn : t.length using Nat.strong_induction_on generalizing t with
  | _ n ih =>
    cases t with
    | nil =>
      have hnext : next '=' [] = .ok (equalsToken, []) := by rfl
      have hend : tokens [] = .ok [] := by rw [tokens]
      rw [List.nil_append, tokens_next (by decide), hnext, hend]
      simp only [Except.toOption, Option.bind_some, hend, Option.map_some, List.nil_append]
    | cons c t =>
      cases hsep : isSeparator c with
      | true => rw [List.cons_append, tokens_separator hsep, tokens_separator hsep, ih t.length (by simp [← hn]) t rfl]
      | false =>
        rw [List.cons_append, tokens_next hsep, tokens_next hsep, next_equals]
        cases hnext : next c t with
        | error s => rfl
        | ok r =>
          have := next_length hnext
          have hrest := ih r.2.length (by simp at hn; omega) r.2 rfl
          simp only [Except.toOption, Option.map_some, Option.bind_some] at hrest ⊢
          rw [hrest, Option.map_map, Option.map_map]
          rfl

theorem tokens_question (t : Text) :
    (tokens ('?' :: t)).toOption = (tokens t).toOption.map (questionToken :: ·) := by
  have hnext : next '?' t = .ok (questionToken, t) := rfl
  rw [tokens_next (by decide), hnext]
  rfl

/-! ### Trees of a marked type -/

theorem Unary.tokens_ne_nil (u : Unary) : u.tokens ≠ [] := List.ne_nil_of_length_pos u.length_tokens_pos

/-- A type in which no other one ends does not end in a mark. -/
theorem Base.exists_last (b : Base) (h : b.isOpen = false) :
    ∃ front last, b.tokens = front ++ [last] ∧ isMark last.kind = false := by
  cases b with
  | signed | functionTo => cases h
  | star word | literal word => exact ⟨[], word.1, rfl, by rw [word.2]; rfl⟩
  | paren first inner last => exact ⟨first.1 :: inner.tokens, last.1, rfl, by rw [last.2]; rfl⟩
  | braces g => exact ⟨g.first.1 :: g.inner, g.last.1, rfl, by rw [g.last.2]; rfl⟩
  | function word arguments | name word arguments =>
    cases arguments with
    | none => exact ⟨[], word.1, rfl, by rw [word.2]; rfl⟩
    | some g => exact ⟨word.1 :: g.first.1 :: g.inner, g.last.1, rfl, by rw [g.last.2]; rfl⟩

theorem Base.isMark_last {b : Base} {ts : List Token} {k : Token} (h : b.tokens = ts ++ [k])
    (hopen : b.isOpen = false) : isMark k.kind = false := by
  obtain ⟨front, last, htokens, hlast⟩ := b.exists_last hopen
  obtain ⟨-, rfl⟩ : front = ts ∧ last = k := by simpa using htokens.symm.trans h
  exact hlast

mutual

/-- Without the last of its marks a type is still a type. -/
theorem Unary.exists_unmarked (u : Unary) {ts : List Token} {k : Token} (hk : isMark k.kind = true)
    (h : u.tokens = ts ++ [k]) : ∃ v : Unary, v.tokens = ts := by
  cases u with
  | mk base marks =>
    rcases List.eq_nil_or_concat marks with rfl | ⟨front, last, rfl⟩
    · obtain ⟨b, rfl⟩ := base.exists_unmarked hk (by simpa [Unary.tokens, markTokens] using h)
      exact ⟨.mk b [], by simp [Unary.tokens, markTokens]⟩
    · rw [Unary.tokens, List.concat_eq_append, markTokens_append, ← List.append_assoc] at h
      exact ⟨.mk base front, (List.append_inj' h rfl).1⟩

theorem Base.exists_unmarked (b : Base) {ts : List Token} {k : Token} (hk : isMark k.kind = true)
    (h : b.tokens = ts ++ [k]) : ∃ c : Base, c.tokens = ts := by
  cases b with
  | signed sign inner =>
    have hsplit : [sign.1] ++ inner.tokens = ts ++ [k] := h
    obtain ⟨init, hinner, rfl⟩ := List.exists_concat_of_append_eq inner.tokens_ne_nil hsplit
    obtain ⟨v, rfl⟩ := inner.exists_unmarked hk hinner
    exact ⟨.signed sign v, rfl⟩
  | functionTo word arguments colon result =>
    have hsplit : (word.1 :: (Group.optional arguments ++ [colon.1])) ++ result.tokens = ts ++ [k] := by
      rw [← h]
      simp [Base.tokens]
    obtain ⟨init, hresult, rfl⟩ := List.exists_concat_of_append_eq result.tokens_ne_nil hsplit
    obtain ⟨v, rfl⟩ := result.exists_unmarked hk hresult
    exact ⟨.functionTo word arguments colon v, by simp [Base.tokens]⟩
  | star | paren | braces | function | name | literal =>
    have hlast := Base.isMark_last h rfl
    rw [hk] at hlast
    cases hlast

end

theorem Members.exists_unmarked (ms : Members) {ts : List Token} {k : Token}
    (hk : isMark k.kind = true) (h : ms.tokens = ts ++ [k]) : ∃ ns : Members, ns.tokens = ts := by
  cases ms with
  | nil => simp [Members.tokens] at h
  | cons bar member others =>
    cases others with
    | nil =>
      have hsplit : [bar.1] ++ member.tokens = ts ++ [k] := by simpa [Members.tokens] using h
      obtain ⟨init, hmember, rfl⟩ := List.exists_concat_of_append_eq member.tokens_ne_nil hsplit
      obtain ⟨v, rfl⟩ := member.exists_unmarked hk hmember
      exact ⟨.cons bar v .nil, by simp [Members.tokens]⟩
    | cons bar' member' others =>
      have hsplit : (bar.1 :: member.tokens) ++ (Members.cons bar' member' others).tokens =
          ts ++ [k] := h
      obtain ⟨init, hothers, rfl⟩ := List.exists_concat_of_append_eq (by simp [Members.tokens]) hsplit
      obtain ⟨ns, rfl⟩ := (Members.cons bar' member' others).exists_unmarked hk hothers
      exact ⟨.cons bar member ns, rfl⟩

theorem TypeExpr.exists_unmarked (e : TypeExpr) {ts : List Token} {k : Token} (hk : isMark k.kind = true)
    (h : e.tokens = ts ++ [k]) : ∃ f : TypeExpr, f.tokens = ts := by
  cases e with
  | mk first others =>
    cases others with
    | nil =>
      obtain ⟨v, rfl⟩ := first.exists_unmarked hk (by simpa [TypeExpr.tokens, Members.tokens] using h)
      exact ⟨.mk v .nil, by simp [TypeExpr.tokens, Members.tokens]⟩
    | cons bar member others =>
      obtain ⟨init, hothers, rfl⟩ := List.exists_concat_of_append_eq (by simp [Members.tokens]) h
      obtain ⟨ns, rfl⟩ := (Members.cons bar member others).exists_unmarked hk hothers
      exact ⟨.mk first ns, rfl⟩

/-- A sign before a whole type stands before its first member. -/
theorem TypeExpr.exists_unsigned (e : TypeExpr) {ts : List Token} {k : Token}
    (hk : k.kind = .question) (h : e.tokens = k :: ts) : ∃ f : TypeExpr, f.tokens = ts := by
  rcases e with ⟨⟨base, marks⟩, others⟩
  cases base with
  | signed sign inner =>
    have hrest : inner.tokens ++ markTokens marks ++ others.tokens = ts := (List.cons.inj h).2
    refine ⟨.mk (inner.settle marks) others, ?_⟩
    rw [TypeExpr.tokens, inner.tokens_settle, hrest]
  | star word | literal word | function word _ | functionTo word _ _ _ | name word _ =>
    obtain rfl : word.1 = k := (List.cons.inj h).1
    rw [word.2] at hk
    cases hk
  | paren first _ _ =>
    obtain rfl : first.1 = k := (List.cons.inj h).1
    rw [first.2] at hk
    cases hk
  | braces g =>
    obtain rfl : g.first.1 = k := (List.cons.inj h).1
    rw [g.first.2] at hk
    cases hk

/-! ### Marks that are kept -/

def TypeExpr.isUnion : TypeExpr → Bool
  | .mk _ others => !others.isEmpty

mutual

def Unary.endsInResult : Unary → Bool
  | .mk base _ => base.endsInResult

def Base.endsInResult : Base → Bool
  | .signed _ inner => inner.endsInResult
  | .functionTo _ _ _ _ => true
  | _ => false

end

/-- Whether the last type of all is the result of a function. -/
def TypeExpr.endsInResult : TypeExpr → Bool
  | .mk first _ => first.endsInResult

mutual

/-- Marks after a function with a result are bound to the result, and others are seen. -/
theorem Unary.isOptional_settle (u : Unary) {marks : List Mark} (h : hasMark .equals marks = true) :
    (u.settle marks).isOptional = !u.endsInResult := by
  cases u with
  | mk base own =>
    refine base.isOptional_settle ?_
    simp [hasMark, List.any_append] at h ⊢
    exact .inr h

theorem Base.isOptional_settle (b : Base) {marks : List Mark} (h : hasMark .equals marks = true) :
    (b.settle marks).isOptional = !b.endsInResult := by
  cases b with
  | signed sign inner =>
    rw [Base.settle, Unary.isOptional, Base.isOptional, inner.isOptional_settle h]
    simp [hasMark, Base.endsInResult]
  | functionTo => rfl
  | star | paren | braces | function | name | literal =>
    simp [Base.settle, Unary.isOptional, h, Base.endsInResult]

end

theorem readTokens_innermost {e : TypeExpr} (h : e.Innermost) : readTokens e.tokens = .ok e.info := by
  have htaken : takeTop (e.tokens ++ []) = .ok (e.info, []) := e.taken h (by simp [Closes])
  rw [List.append_nil] at htaken
  exact readTokens_eq_ok_iff.mpr htaken

theorem Members.isEmpty_settle (ms : Members) : ms.settle.isEmpty = ms.isEmpty := by cases ms <;> rfl

/-- Whatever is said about its members, a union is neither optional nor nullable. -/
theorem readTokens_union (first : Unary) (others : Members) (h : others.isEmpty = false) :
    ∃ info, readTokens (TypeExpr.mk first others).tokens = .ok info ∧ info.optional = false ∧
      info.nullable = false := by
  have hread := readTokens_innermost (TypeExpr.mk first others).innermost_settle
  have hothers : others.settle.isEmpty = false := others.isEmpty_settle.trans h
  rw [TypeExpr.tokens_settle] at hread
  refine ⟨_, hread, ?_, ?_⟩
  · simp [TypeExpr.info, reading, TypeExpr.settle, TypeExpr.isOptional, hothers]
  · simp [TypeExpr.info, reading, TypeExpr.settle, TypeExpr.nulls, hothers]

theorem Members.exists_marked (ms : Members) (h : ms.isEmpty = false) (mark : Mark) :
    ∃ ns : Members, ns.tokens = ms.tokens ++ [mark.1] ∧ ns.isEmpty = false := by
  cases ms with
  | nil => cases h
  | cons bar member others =>
    cases others with
    | nil =>
      refine ⟨.cons bar (member.settle [mark]) .nil, ?_, rfl⟩
      simp [Members.tokens, member.tokens_settle, markTokens]
    | cons bar' member' others =>
      obtain ⟨ns, htokens, -⟩ := (Members.cons bar' member' others).exists_marked rfl mark
      refine ⟨.cons bar member ns, ?_, rfl⟩
      rw [Members.tokens, htokens, ← List.append_assoc]
      rfl

theorem readTokens_equals (e : TypeExpr) :
    ∃ info, readTokens (e.tokens ++ [equalsToken]) = .ok info ∧
      info.optional = (!e.isUnion && !e.endsInResult) := by
  let mark : Mark := ⟨equalsToken, rfl⟩
  rcases e with ⟨first, others⟩
  cases others with
  | nil =>
    let marked : TypeExpr := .mk (first.settle [mark]) .nil
    have htokens : marked.tokens = (TypeExpr.mk first .nil).tokens ++ [equalsToken] := by
      simp [marked, TypeExpr.tokens, first.tokens_settle, Members.tokens, markTokens, mark]
    have hinnermost : marked.Innermost := ⟨first.innermost_settle [mark], trivial⟩
    refine ⟨marked.info, by rw [← htokens, readTokens_innermost hinnermost], ?_⟩
    exact first.isOptional_settle rfl
  | cons bar member others =>
    obtain ⟨ns, htokens, hempty⟩ := (Members.cons bar member others).exists_marked rfl mark
    obtain ⟨info, hread, hoptional, -⟩ := readTokens_union first ns hempty
    refine ⟨info, ?_, hoptional⟩
    rw [← hread, TypeExpr.tokens, TypeExpr.tokens, htokens, List.append_assoc]

theorem readTokens_question (e : TypeExpr) :
    ∃ info, readTokens (questionToken :: e.tokens) = .ok info ∧ info.nullable = !e.isUnion := by
  let sign : Sign := ⟨questionToken, rfl⟩
  rcases e with ⟨first, others⟩
  cases others with
  | nil =>
    let signed : TypeExpr := .mk (.mk (.signed sign (first.settle [])) []) .nil
    have htokens : signed.tokens = questionToken :: (TypeExpr.mk first .nil).tokens := by
      simp [signed, TypeExpr.tokens, Unary.tokens, Base.tokens, first.tokens_settle, Members.tokens,
        markTokens, sign]
    have hinnermost : signed.Innermost := ⟨⟨first.innermost_settle [], fun _ => rfl⟩, trivial⟩
    have hlast : signed.nulls.getLast? = some .question := by
      simp [signed, TypeExpr.nulls, Members.isEmpty, Unary.nulls, Base.nulls, nullKinds, markTokens,
        sign, questionToken]
    refine ⟨signed.info, by rw [← htokens, readTokens_innermost hinnermost], ?_⟩
    exact decide_eq_true hlast
  | cons bar member others =>
    obtain ⟨info, hread, -, hnullable⟩ :=
      readTokens_union (.mk (.signed sign first) []) (.cons bar member others) rfl
    refine ⟨info, ?_, hnullable⟩
    rw [← hread]
    simp [TypeExpr.tokens, Unary.tokens, Base.tokens, markTokens, sign]

/-! ### Entries -/

theorem readType_eq_ok_iff {t : Text} {info : TypeInfo} :
    readType t = .ok info ↔ ∃ ts, tokens t = .ok ts ∧ readTokens ts = .ok info := by
  unfold readType
  cases tokens t <;> simp

theorem exists_tree {ts : List Token} {info : TypeInfo} (h : readTokens ts = .ok info) :
    ∃ e : TypeExpr, e.tokens = ts := by
  obtain ⟨e, -, htokens, -⟩ := (reads_trees ts).2.2 _ _ (readTokens_eq_ok_iff.mp h)
  exact ⟨e, by simpa using htokens⟩

theorem readType_equals {t : Text} {e : TypeExpr} (h : tokens t = .ok e.tokens) :
    ∃ info, readType (t ++ ['=']) = .ok info ∧ info.optional = (!e.isUnion && !e.endsInResult) := by
  obtain ⟨info, hread, hoptional⟩ := readTokens_equals e
  have htokens : tokens (t ++ ['=']) = .ok (e.tokens ++ [equalsToken]) := by
    rw [← Except.toOption_eq_some_iff, tokens_equals, h]
    rfl
  exact ⟨info, readType_eq_ok_iff.mpr ⟨_, htokens, hread⟩, hoptional⟩

theorem exists_tree_of_equals {t : Text} {info : TypeInfo} (h : readType (t ++ ['=']) = .ok info) :
    ∃ e : TypeExpr, tokens t = .ok e.tokens := by
  obtain ⟨ts, htokens, hread⟩ := readType_eq_ok_iff.mp h
  rw [← Except.toOption_eq_some_iff, tokens_equals, Option.map_eq_some_iff] at htokens
  obtain ⟨front, hfront, rfl⟩ := htokens
  obtain ⟨marked, hmarked⟩ := exists_tree hread
  obtain ⟨e, rfl⟩ := marked.exists_unmarked rfl hmarked
  exact ⟨e, Except.toOption_eq_some_iff.mp hfront⟩

theorem readType_question {t : Text} {e : TypeExpr} (h : tokens t = .ok e.tokens) :
    ∃ info, readType ('?' :: t) = .ok info ∧ info.nullable = !e.isUnion := by
  obtain ⟨info, hread, hnullable⟩ := readTokens_question e
  have htokens : tokens ('?' :: t) = .ok (questionToken :: e.tokens) := by
    rw [← Except.toOption_eq_some_iff, tokens_question, h]
    rfl
  exact ⟨info, readType_eq_ok_iff.mpr ⟨_, htokens, hread⟩, hnullable⟩

theorem exists_tree_of_question {t : Text} {info : TypeInfo} (h : readType ('?' :: t) = .ok info) :
    ∃ e : TypeExpr, tokens t = .ok e.tokens := by
  obtain ⟨ts, htokens, hread⟩ := readType_eq_ok_iff.mp h
  rw [← Except.toOption_eq_some_iff, tokens_question, Option.map_eq_some_iff] at htokens
  obtain ⟨rest, hrest, rfl⟩ := htokens
  obtain ⟨signed, hsigned⟩ := exists_tree hread
  obtain ⟨e, rfl⟩ := signed.exists_unsigned rfl hsigned
  exact ⟨e, Except.toOption_eq_some_iff.mp hrest⟩

theorem Matched.concat_equals {t : Text} (h : Matched '\x7b' '\x7d' t) :
    Matched '\x7b' '\x7d' (t ++ ['=']) := by
  have hcount (s : Text) : (s ++ ['=']).count '\x7b' = s.count '\x7b' ∧
      (s ++ ['=']).count '\x7d' = s.count '\x7d' := by simp [List.count_append]
  refine ⟨fun s hs => ?_, by rw [(hcount t).1, (hcount t).2, h.whole]⟩
  rcases List.prefix_concat_iff.mp hs with rfl | hs
  · rw [(hcount t).1, (hcount t).2, h.whole]
  · exact h.front s hs

theorem Matched.cons_question {t : Text} (h : Matched '\x7b' '\x7d' t) :
    Matched '\x7b' '\x7d' ('?' :: t) := by
  refine ⟨fun s hs => ?_, by simp [h.whole]⟩
  rcases List.prefix_cons_iff.mp hs with rfl | ⟨r, rfl, hr⟩
  · exact Nat.le_refl 0
  · simpa using h.front r hr

/-- An entry of a type and a name is accepted exactly if its type is. -/
theorem parse_plain {t n : Text} (ht : Matched '\x7b' '\x7d' t) (hn : IsName n) {p : Parameter} :
    parse (heading (some t) (.plain n)) = .ok p ↔
      ∃ info, readType t = .ok info ∧ ofHeading (some t) (.plain n) [] info = p := by
  have hclosed : Closed (some t) := by
    intro s hs
    cases hs
    exact ht
  have hform : (NameForm.plain n).Valid := hn
  have hread : parseTrimmed (heading (some t) (.plain n) ++ []) = _ :=
    parseTrimmed_heading hclosed hform (by simp)
  rw [List.append_nil] at hread
  rw [parse, Text.trim_of_tight (tight_heading (some t) hform), hread, typeOf]
  cases readType t <;> simp [Except.map]

/-- A type marked as optional, and a name. -/
def optionalEntry (t n : Text) : Text := "\x7b".toList ++ t ++ "=\x7d ".toList ++ n

/-- A type marked as nullable, and a name. -/
def nullableEntry (t n : Text) : Text := "\x7b?".toList ++ t ++ "\x7d ".toList ++ n

theorem parse_optionalEntry {t n : Text} (ht : Matched '\x7b' '\x7d' t) (hn : IsName n) {p : Parameter} :
    parse (optionalEntry t n) = .ok p ↔ ∃ info, readType (t ++ ['=']) = .ok info ∧
      ofHeading (some (t ++ ['='])) (.plain n) [] info = p := by
  have hform : optionalEntry t n = heading (some (t ++ ['='])) (.plain n) := by
    simp [optionalEntry, heading, typePart, NameForm.text]
  rw [hform]
  exact parse_plain ht.concat_equals hn

theorem parse_nullableEntry {t n : Text} (ht : Matched '\x7b' '\x7d' t) (hn : IsName n) {p : Parameter} :
    parse (nullableEntry t n) = .ok p ↔ ∃ info, readType ('?' :: t) = .ok info ∧
      ofHeading (some ('?' :: t)) (.plain n) [] info = p := by
  have hform : nullableEntry t n = heading (some ('?' :: t)) (.plain n) := by
    simp [nullableEntry, heading, typePart, NameForm.text]
  rw [hform]
  exact parse_plain ht.cons_question hn

/-- A mark does not decide whether an entry is accepted. The mark for null is kept unless the type is a
union in the open, and the one for optional unless it is that or ends in the result of a function. -/
theorem marks_kept_iff {t n : Text} (ht : Matched '\x7b' '\x7d' t) (hn : IsName n) :
    ((∃ p, parse (optionalEntry t n) = .ok p) ↔ ∃ e : TypeExpr, tokens t = .ok e.tokens) ∧
    ((∃ p, parse (nullableEntry t n) = .ok p) ↔ ∃ e : TypeExpr, tokens t = .ok e.tokens) ∧
    ∀ e : TypeExpr, tokens t = .ok e.tokens → ∀ p,
      (parse (optionalEntry t n) = .ok p →
        (p.optional = true ↔ e.isUnion = false ∧ e.endsInResult = false)) ∧
      (parse (nullableEntry t n) = .ok p → (p.nullable = true ↔ e.isUnion = false)) := by
  refine ⟨⟨?_, ?_⟩, ⟨?_, ?_⟩, ?_⟩
  · rintro ⟨p, hp⟩
    obtain ⟨info, hinfo, -⟩ := (parse_optionalEntry ht hn).mp hp
    exact exists_tree_of_equals hinfo
  · rintro ⟨e, he⟩
    obtain ⟨info, hinfo, -⟩ := readType_equals he
    exact ⟨_, (parse_optionalEntry ht hn).mpr ⟨info, hinfo, rfl⟩⟩
  · rintro ⟨p, hp⟩
    obtain ⟨info, hinfo, -⟩ := (parse_nullableEntry ht hn).mp hp
    exact exists_tree_of_question hinfo
  · rintro ⟨e, he⟩
    obtain ⟨info, hinfo, -⟩ := readType_question he
    exact ⟨_, (parse_nullableEntry ht hn).mpr ⟨info, hinfo, rfl⟩⟩
  · intro e he p
    constructor
    · intro hp
      obtain ⟨info, hinfo, hoptional⟩ := readType_equals he
      obtain ⟨info', hinfo', rfl⟩ := (parse_optionalEntry ht hn).mp hp
      obtain rfl : info = info' := Except.ok.inj (hinfo.symm.trans hinfo')
      simp [ofHeading, NameForm.isBracketed, hoptional]
    · intro hp
      obtain ⟨info, hinfo, hnullable⟩ := readType_question he
      obtain ⟨info', hinfo', rfl⟩ := (parse_nullableEntry ht hn).mp hp
      obtain rfl : info = info' := Except.ok.inj (hinfo.symm.trans hinfo')
      simp [ofHeading, hnullable]

/-- The tree of `(A|B)`. -/
def parenthesizedUnion : TypeExpr :=
  let member (c : Char) : Unary := .mk (.name ⟨⟨.name, [c]⟩, rfl⟩ none) []
  let union : TypeExpr := .mk (member 'A') (.cons ⟨⟨.pipe, ['|']⟩, rfl⟩ (member 'B') .nil)
  .mk (.mk (.paren ⟨⟨.parenOpen, ['(']⟩, rfl⟩ union ⟨⟨.parenClose, [')']⟩, rfl⟩) []) .nil

theorem marks_kept_parenthesizedUnion :
    (∃ p, parse (optionalEntry "(A|B)".toList "n".toList) = .ok p ∧ p.optional = true) ∧
      ∃ p, parse (nullableEntry "(A|B)".toList "n".toList) = .ok p ∧ p.nullable = true := by
  have htokens : tokens "(A|B)".toList = .ok parenthesizedUnion.tokens := by decide +kernel
  have hmarks := marks_kept_iff (t := "(A|B)".toList) (n := "n".toList) (by decide) (by decide)
  obtain ⟨p, hp⟩ := hmarks.1.mpr ⟨_, htokens⟩
  obtain ⟨q, hq⟩ := hmarks.2.1.mpr ⟨_, htokens⟩
  refine ⟨⟨p, hp, ?_⟩, q, hq, ?_⟩
  · exact ((hmarks.2.2 _ htokens p).1 hp).mpr ⟨rfl, rfl⟩
  · exact ((hmarks.2.2 _ htokens q).2 hq).mpr rfl

/-- The open union is neither optional nor nullable, and the function is not optional. -/
theorem marks_lost_openUnion :
    parse "\x7b?A|B=\x7d n".toList = .ok {
      name := "n".toList
      description := []
      names := .union ["A".toList, "B".toList]
      default := none
      nullable := false
      optional := false
      written := "\x7b?A|B=\x7d n".toList } ∧
    parse "\x7bfunction(): A=\x7d n".toList = .ok {
      name := "n".toList
      description := []
      names := .single "Function".toList
      default := none
      nullable := false
      optional := false
      written := "\x7bfunction(): A=\x7d n".toList } := by
  decide +kernel

end TemplateDocs.Parameter
