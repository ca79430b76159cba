import Mathlib
import TemplateDocs.Proofs.Basic
import TemplateDocs.Proofs.Parameter.TypeExpression

/-!
# The grammar of type expressions

The reader of types accepts exactly the tokens that some syntax tree is spelled with. What it computes
is the meaning of the tree in which every mark belongs to the innermost type.
-/
namespace TemplateDocs.Parameter

/-! ### Groups -/

section Groups

variable {opening closing : Kind}

theorem Balanced.afterGroup? (hne : opening ≠ closing) {inner : List Token}
    (h : Balanced opening closing inner) {depth : Nat} (hd : 0 < depth) (ts : List Token) :
    afterGroup? opening closing depth (inner ++ ts) = afterGroup? opening closing depth ts := by
  induction h generalizing depth ts with
  | nil => rfl
  | other ho hc _ ih =>
    rw [List.cons_append, Parameter.afterGroup?, if_neg ho, if_neg hc]
    exact ih hd ts
  | @group o c inner after ho hc _ _ ihinner ih =>
    have hclosing : c.kind ≠ opening := fun h => hne (h.symm.trans hc)
    rw [List.cons_append, Parameter.afterGroup?, if_pos ho, List.append_assoc,
      ihinner (Nat.succ_pos depth), List.cons_append, Parameter.afterGroup?, if_neg hclosing,
      if_pos hc, if_neg (by omega), Nat.succ_sub_one]
    exact ih hd ts

/-- What closes the innermost of the open brackets, and what is left of the search for the others. -/
theorem exists_balanced {depth : Nat} {ts rest : List Token}
    (h : afterGroup? opening closing (depth + 1) ts = some rest) :
    ∃ inner c mid, Balanced opening closing inner ∧ c.kind = closing ∧ ts = inner ++ c :: mid ∧
      if depth = 0 then mid = rest else afterGroup? opening closing depth mid = some rest := by
  -- A bracket that opens leaves two searches one after the other, each over fewer tokens.
  induction hn : ts.length using Nat.strong_induction_on generalizing depth ts with
  | _ n ih =>
    cases ts with
    | nil => simp [afterGroup?] at h
    | cons k ts =>
      rw [afterGroup?] at h
      rw [List.length_cons] at hn
      split_ifs at h with hopen hclose hdepth
      · obtain ⟨inner, c, mid, hinner, hc, rfl, hmid⟩ := ih ts.length (by omega) h rfl
        rw [if_neg (Nat.succ_ne_zero depth)] at hmid
        have hshort : mid.length < n := by
          simp only [List.length_append, List.length_cons] at hn
          omega
        obtain ⟨more, c', mid', hmore, hc', rfl, hrest⟩ := ih mid.length hshort hmid rfl
        exact ⟨k :: (inner ++ c :: more), c', mid', .group hopen hc hinner hmore, hc', by simp, hrest⟩
      · obtain rfl : depth = 0 := by omega
        simp only [Option.some.injEq] at h
        exact ⟨[], k, ts, .nil, hclose, rfl, by simpa using h⟩
      · refine ⟨[], k, ts, .nil, hclose, rfl, ?_⟩
        rw [if_neg (by omega)]
        simpa using h
      · obtain ⟨inner, c, mid, hinner, hc, rfl, hmid⟩ := ih ts.length (by omega) h rfl
        exact ⟨k :: inner, c, mid, .other hopen hclose hinner, hc, by simp, hmid⟩

/-- Inside a group the search for its end passes over the whole of it. -/
theorem Group.afterGroup? (hne : opening ≠ closing) (g : Group opening closing) (rest : List Token) :
    afterGroup? opening closing 1 (g.inner ++ g.last.1 :: rest) = some rest := by
  have hclosing : g.last.1.kind ≠ opening := fun h => hne (h.symm.trans g.last.2)
  rw [g.balanced.afterGroup? hne Nat.one_pos, Parameter.afterGroup?, if_neg hclosing,
    if_pos g.last.2, if_pos le_rfl]

theorem exists_group {first : Token} (hfirst : first.kind = opening) {ts rest : List Token}
    (h : afterGroup? opening closing 1 ts = some rest) :
    ∃ g : Group opening closing, g.tokens ++ rest = first :: ts := by
  obtain ⟨inner, c, mid, hinner, hc, rfl, hmid⟩ := exists_balanced h
  rw [if_pos rfl] at hmid
  exact ⟨⟨⟨first, hfirst⟩, inner, ⟨c, hc⟩, hinner⟩, by simp [Group.tokens, hmid]⟩

end Groups

/-! ### Marks -/

/-- No mark stands in front. -/
def Stops (ts : List Token) : Prop := ∀ k ∈ ts.head?, isMark k.kind = false

theorem applyMarks_of_stops {ts : List Token} (h : Stops ts) (info : TypeInfo) :
    applyMarks info ts = (info, ts) := by
  cases ts with
  | nil => rfl
  | cons k ts =>
    have hk : isMark k.kind = false := h k rfl
    rw [applyMarks]
    cases hkind : k.kind <;> simp_all [isMark]

theorem exists_marks (ts : List Token) :
    ∃ marks rest, ts = markTokens marks ++ rest ∧ Stops rest := by
  induction ts with
  | nil => exact ⟨[], [], rfl, by simp [Stops]⟩
  | cons k ts ih =>
    by_cases hk : isMark k.kind = true
    · obtain ⟨marks, rest, rfl, hrest⟩ := ih
      exact ⟨⟨k, hk⟩ :: marks, rest, rfl, hrest⟩
    · exact ⟨[], k :: ts, rfl, by simpa [Stops] using hk⟩

theorem markTokens_cons (mark : Mark) (marks : List Mark) :
    markTokens (mark :: marks) = mark.1 :: markTokens marks := rfl

theorem hasMark_cons (kind : Kind) (mark : Mark) (marks : List Mark) :
    hasMark kind (mark :: marks) = (decide (mark.1.kind = kind) || hasMark kind marks) := rfl

theorem nullKinds_cons (k : Token) (ks : List Token) : nullKinds (k :: ks) = nullKinds [k] ++ nullKinds ks := by
  rw [nullKinds, nullKinds, nullKinds, ← List.filter_append, ← List.map_append, List.singleton_append]

theorem isMark_iff {kind : Kind} : isMark kind = true ↔
    kind = .arrayMark ∨ kind = .equals ∨ kind = .question ∨ kind = .bang := by
  cases kind <;> simp [isMark]

/-- What one mark does to a type. -/
theorem applyMarks_mark (mark : Mark) (names : Names) (nulls : List Kind) (isOptional : Bool)
    (ts : List Token) :
    applyMarks (reading names nulls isOptional) (mark.1 :: ts) =
      applyMarks (reading (if mark.1.kind = .arrayMark then .single "Array".toList else names)
        (nulls ++ nullKinds [mark.1]) (isOptional || decide (mark.1.kind = .equals))) ts := by
  obtain ⟨k, hk⟩ := mark
  rcases isMark_iff.1 hk with hkind | hkind | hkind | hkind <;>
    simp [applyMarks, hkind, nullKinds, reading]

/-- The marks after a type are applied one by one; together they say what the tree says. -/
theorem applyMarks_reading (marks : List Mark) (names : Names) (nulls : List Kind) (isOptional : Bool)
    {rest : List Token} (h : Stops rest) :
    applyMarks (reading names nulls isOptional) (markTokens marks ++ rest) =
      (reading (if hasMark .arrayMark marks then .single "Array".toList else names)
        (nulls ++ nullKinds (markTokens marks)) (isOptional || hasMark .equals marks), rest) := by
  induction marks generalizing names nulls isOptional with
  | nil => simp [markTokens, hasMark, nullKinds, applyMarks_of_stops h]
  | cons mark marks ih =>
    rw [markTokens_cons, List.cons_append, applyMarks_mark, ih,
      nullKinds_cons mark.1 (markTokens marks), hasMark_cons, hasMark_cons, List.append_assoc,
      Bool.or_assoc]
    congr 2
    by_cases harray : mark.1.kind = .arrayMark <;> simp [harray]

/-! ### The reader without its bounds -/

def partsOf {ts : List Token} (r : Taken TypeInfo ts) : TypeInfo × List Token := (r.value, r.rest)

def takeTop (ts : List Token) : Except TypeFault (TypeInfo × List Token) :=
  (readTop ts).map partsOf

def takeUnary (ts : List Token) : Except TypeFault (TypeInfo × List Token) :=
  (readUnary ts).map partsOf

def takeMembers (names : List Text) (ts : List Token) : Except TypeFault (List Text × List Token) :=
  (readMembers names ts).map Subtype.val

/-- What follows a group that may stand in front. -/
def takeGroup (opening closing : Kind) (shown : Text) (ts : List Token) : Except TypeFault (List Token) :=
  (skipGroup opening closing shown ts).map Subtype.val

/-- What follows a closing parenthesis. -/
def afterParen : List Token → Except TypeFault (List Token)
  | [] => .error (.expectedClosing [')'])
  | k :: ts => if k.kind = .parenClose then .ok ts else .error (.expectedClosing [')'])

/-- What follows the result of a function that may stand in front. -/
def afterResult : List Token → Except TypeFault (List Token)
  | [] => .ok []
  | k :: ts => if k.kind = .colon then (takeUnary ts).map Prod.snd else .ok (k :: ts)

/-- A type without the marks after it. -/
def takeBase : List Token → Except TypeFault (TypeInfo × List Token)
  | [] => .error .expectedType
  | k :: ts =>
    match k.kind with
    | .question => (takeUnary ts).map fun r => ({ r.1 with nullable := true }, r.2)
    | .bang => (takeUnary ts).map fun r => ({ r.1 with nullable := false }, r.2)
    | .ellipsis => takeUnary ts
    | .star => .ok (.named ['*'], ts)
    | .parenOpen => (takeTop ts).bind fun r => (afterParen r.2).map fun rest => (r.1, rest)
    | .braceOpen =>
      (afterGroup? .braceOpen .braceClose 1 ts).elim (.error (.expectedClosing ['\x7d']))
        fun rest => .ok (.named "Object".toList, rest)
    | .function =>
      (takeGroup .parenOpen .parenClose [')'] ts).bind fun rest =>
        (afterResult rest).map fun rest => (.named "Function".toList, rest)
    | .name => (takeGroup .angleOpen .angleClose ['>'] ts).map fun rest => (.named k.text, rest)
    | .literal => .ok (.named k.text, ts)
    | _ => .error (.unexpected k.text)

theorem takeUnary_eq (ts : List Token) :
    takeUnary ts = (takeBase ts).map fun r => applyMarks r.1 r.2 := by
  unfold takeUnary
  cases ts with
  | nil =>
    rw [readUnary]
    rfl
  | cons k ts =>
    rw [readUnary, takeBase]
    cases k.kind with
    | question | bang | ellipsis =>
      rw [takeUnary]
      cases readUnary ts <;> rfl
    | parenOpen =>
      rw [takeTop]
      rcases readTop ts with e | ⟨info, _ | ⟨close, rest⟩, h⟩
      · rfl
      · rfl
      · by_cases hclose : close.kind = .parenClose <;>
          simp [Except.map, Except.bind, afterParen, partsOf, marked, hclose]
    | braceOpen =>
      dsimp only
      split <;> simp_all [Except.map, partsOf, marked]
    | function =>
      rw [takeGroup]
      rcases skipGroup .parenOpen .parenClose [')'] ts with e | ⟨_ | ⟨colon, rest⟩, h⟩
      · rfl
      · rfl
      · by_cases hcolon : colon.kind = .colon
        · simp only [hcolon, ↓reduceIte, Except.map, Except.bind, afterResult, takeUnary]
          cases readUnary rest <;> rfl
        · simp [Except.map, Except.bind, afterResult, partsOf, marked, hcolon]
    | name =>
      dsimp only [takeGroup]
      cases skipGroup .angleOpen .angleClose ['>'] ts <;> rfl
    | _ => rfl

theorem takeMembers_nil (names : List Text) : takeMembers names [] = .ok (names, []) := by
  rw [takeMembers, readMembers]
  rfl

theorem takeMembers_bar (names : List Text) {k : Token} (hk : k.kind = .pipe) (ts : List Token) :
    takeMembers names (k :: ts) =
      (takeUnary ts).bind fun r => takeMembers (names ++ r.1.names.toList) r.2 := by
  rw [takeMembers, readMembers, if_pos hk, takeUnary]
  cases readUnary ts with
  | error e => rfl
  | ok member =>
    simp only [Except.map, Except.bind, takeMembers, partsOf]
    cases readMembers (names ++ member.value.names.toList) member.rest with
    | error e => rfl
    | ok r => rfl

theorem takeMembers_stop (names : List Text) {k : Token} (hk : k.kind ≠ .pipe) (ts : List Token) :
    takeMembers names (k :: ts) = .ok (names, k :: ts) := by
  rw [takeMembers, readMembers, if_neg hk]
  rfl

/-- Either one type stands there, or a bar follows it and a union is read. -/
theorem takeTop_eq (ts : List Token) :
    takeTop ts = (takeUnary ts).bind fun first =>
      if first.2.head?.map Token.kind = some .pipe then
        (takeMembers first.1.names.toList first.2).map fun r => (⟨.union r.1, false, false⟩, r.2)
      else .ok first := by
  rw [takeTop, readTop, takeUnary]
  cases readUnary ts with
  | error e => rfl
  | ok first =>
    simp only [Except.map, Except.bind, takeMembers, partsOf]
    split_ifs
    · cases readMembers first.value.names.toList first.rest with
      | error e => rfl
      | ok r => rfl
    · rfl

/-! ### Trees are read -/

/-- The end of the tokens or of a parenthesis. -/
def Closes (ts : List Token) : Prop := ∀ k ∈ ts.head?, k.kind = .parenClose

/-- What may follow a type that is part of a larger one. -/
def Follows (ts : List Token) : Prop := ∀ k ∈ ts.head?, k.kind = .pipe ∨ k.kind = .parenClose

/-- What may follow a type before its marks. -/
def Trails (ts : List Token) : Prop :=
  ∀ k ∈ ts.head?, isMark k.kind = true ∨ k.kind = .pipe ∨ k.kind = .parenClose

theorem Closes.follows {ts : List Token} (h : Closes ts) : Follows ts := fun k hk => .inr (h k hk)

theorem Follows.trails {ts : List Token} (h : Follows ts) : Trails ts := fun k hk => .inr (h k hk)

theorem Follows.stops {ts : List Token} (h : Follows ts) : Stops ts := by
  intro k hk
  rcases h k hk with hkind | hkind <;> rw [hkind] <;> rfl

theorem Trails.ne {ts : List Token} (h : Trails ts) {kind : Kind} (hmark : isMark kind = false)
    (hpipe : kind ≠ .pipe) (hparen : kind ≠ .parenClose) : ∀ k ∈ ts.head?, k.kind ≠ kind := by
  rintro k hk rfl
  rcases h k hk with hkind | hkind | hkind
  · rw [hkind] at hmark
    cases hmark
  · exact hpipe hkind
  · exact hparen hkind

theorem trails_marks (marks : List Mark) {rest : List Token} (h : Follows rest) :
    Trails (markTokens marks ++ rest) := by
  cases marks with
  | nil => exact h.trails
  | cons mark marks =>
    intro k hk
    obtain rfl : mark.1 = k := by simpa [markTokens] using hk
    exact .inl mark.2

theorem Members.follows (others : Members) {rest : List Token} (h : Closes rest) :
    Follows (others.tokens ++ rest) := by
  cases others with
  | nil => exact h.follows
  | cons bar member others =>
    intro k hk
    obtain rfl : bar.1 = k := by simpa [Members.tokens] using hk
    exact .inl bar.2

theorem takeGroup_optional {opening closing : Kind} (hne : opening ≠ closing) (shown : Text)
    (g : Option (Group opening closing)) {rest : List Token} (h : ∀ k ∈ rest.head?, k.kind ≠ opening) :
    takeGroup opening closing shown (Group.optional g ++ rest) = .ok rest := by
  cases g with
  | some g =>
    have hrest := g.afterGroup? hne rest
    have htokens : Group.optional (some g) ++ rest = g.first.1 :: (g.inner ++ g.last.1 :: rest) := by
      simp [Group.optional, Group.tokens]
    rw [htokens, takeGroup, skipGroup, if_pos g.first.2]
    split
    · rename_i after hafter
      rw [hrest] at hafter
      exact congrArg Except.ok (Option.some.inj hafter).symm
    · rename_i hafter
      rw [hrest] at hafter
      cases hafter
  | none =>
    cases rest with
    | nil => rfl
    | cons k rest =>
      have hk : k.kind ≠ opening := h k rfl
      simp [Group.optional, takeGroup, skipGroup, hk, Except.map]

theorem afterResult_of_ne {ts : List Token} (h : ∀ k ∈ ts.head?, k.kind ≠ .colon) :
    afterResult ts = .ok ts := by
  cases ts with
  | nil => rfl
  | cons k ts => rw [afterResult, if_neg (h k rfl)]

theorem isSign_iff {kind : Kind} :
    isSign kind = true ↔ kind = .question ∨ kind = .bang ∨ kind = .ellipsis := by
  cases kind <;> simp [isSign]

theorem takeBase_signed (sign : Sign) {inner : Unary} {ts rest : List Token}
    (h : takeUnary ts = .ok (inner.info, rest)) :
    takeBase (sign.1 :: ts) = .ok ((Base.signed sign inner).info, rest) := by
  obtain ⟨k, hk⟩ := sign
  rcases isSign_iff.1 hk with hkind | hkind | hkind <;>
    simp [takeBase, hkind, h, Except.map, Base.info, Base.names, Base.nulls, Base.isOptional,
      Unary.info, reading, nullKinds]

theorem takeBase_paren (first : Of .parenOpen) (last : Of .parenClose) {info : TypeInfo}
    {ts rest : List Token} (h : takeTop ts = .ok (info, last.1 :: rest)) :
    takeBase (first.1 :: ts) = .ok (info, rest) := by
  simp [takeBase, first.2, h, Except.bind, Except.map, afterParen, last.2]

theorem takeBase_braces (g : Group .braceOpen .braceClose) (rest : List Token) :
    takeBase (g.tokens ++ rest) = .ok (.named "Object".toList, rest) := by
  have hrest := g.afterGroup? (by decide) rest
  simp [Group.tokens, takeBase, g.first.2, hrest]

/-- A function is read up to the end of its result. -/
theorem takeBase_function (word : Of .function) (arguments : Option (Group .parenOpen .parenClose))
    {ts rest : List Token} (hts : ∀ k ∈ ts.head?, k.kind ≠ .parenOpen) (h : afterResult ts = .ok rest) :
    takeBase (word.1 :: (Group.optional arguments ++ ts)) = .ok (.named "Function".toList, rest) := by
  have hgroup := takeGroup_optional (by decide) [')'] arguments hts
  simp [takeBase, word.2, hgroup, Except.bind, Except.map, h]

theorem takeBase_name (word : Of .name) (arguments : Option (Group .angleOpen .angleClose))
    {rest : List Token} (h : ∀ k ∈ rest.head?, k.kind ≠ .angleOpen) :
    takeBase (word.1 :: (Group.optional arguments ++ rest)) = .ok (.named word.1.text, rest) := by
  have hgroup := takeGroup_optional (by decide) ['>'] arguments h
  simp [takeBase, word.2, hgroup, Except.map]

mutual

theorem TypeExpr.taken (e : TypeExpr) (he : e.Innermost) {rest : List Token} (h : Closes rest) :
    takeTop (e.tokens ++ rest) = .ok (e.info, rest) := by
  cases e with
  | mk first others =>
    have hfirst := first.taken he.1 (others.follows h)
    have hothers := others.taken he.2 first.members h
    rw [TypeExpr.tokens, List.append_assoc, takeTop_eq, hfirst]
    cases others with
    | nil =>
      have hpipe : rest.head?.map Token.kind ≠ some .pipe := by
        intro hhead
        obtain ⟨k, hk, hkind⟩ := Option.map_eq_some_iff.1 hhead
        rw [h k hk] at hkind
        cases hkind
      exact if_neg hpipe
    | cons bar member others =>
      have hpipe : ((Members.cons bar member others).tokens ++ rest).head?.map Token.kind =
          some .pipe := congrArg some bar.2
      refine (if_pos hpipe).trans ?_
      rw [first.toList_info_names, hothers]
      rfl

theorem Members.taken (ms : Members) (hms : ms.Innermost) (names : List Text) {rest : List Token}
    (h : Closes rest) : takeMembers names (ms.tokens ++ rest) = .ok (names ++ ms.members, rest) := by
  cases ms with
  | nil =>
    cases rest with
    | nil => simp [Members.tokens, Members.members, takeMembers_nil]
    | cons k rest =>
      have hk : k.kind ≠ .pipe := by rw [h k rfl]; decide
      simp [Members.tokens, Members.members, takeMembers_stop names hk]
  | cons bar member others =>
    have hmember := member.taken hms.1 (others.follows h)
    have hothers := others.taken hms.2 (names ++ member.members) h
    rw [Members.tokens, List.cons_append, List.append_assoc, takeMembers_bar names bar.2, hmember,
      Members.members, ← List.append_assoc, Except.bind, member.toList_info_names]
    exact hothers

theorem Unary.taken (u : Unary) (hu : u.Innermost) {rest : List Token} (h : Follows rest) :
    takeUnary (u.tokens ++ rest) = .ok (u.info, rest) := by
  cases u with
  | mk base marks =>
    have hbase : takeBase (base.tokens ++ (markTokens marks ++ rest)) =
        .ok (base.info, markTokens marks ++ rest) := by
      refine base.taken hu.1 (trails_marks marks h) fun hopen => ?_
      rw [hu.2 hopen]
      exact h
    rw [Unary.tokens, List.append_assoc, takeUnary_eq, hbase]
    exact congrArg Except.ok (applyMarks_reading marks base.names base.nulls base.isOptional h.stops)

/-- A type that ends in another one is read if no marks follow, since these would go to the other. -/
theorem Base.taken (b : Base) (hb : b.Innermost) {rest : List Token} (h : Trails rest)
    (hopen : b.isOpen = true → Follows rest) : takeBase (b.tokens ++ rest) = .ok (b.info, rest) := by
  cases b with
  | signed sign inner => exact takeBase_signed sign (inner.taken hb (hopen rfl))
  | star sign => simp [Base.tokens, takeBase, sign.2]; rfl
  | paren first inner last =>
    have hlast : Closes (last.1 :: rest) := by
      intro k hk
      obtain rfl : last.1 = k := by simpa using hk
      exact last.2
    rw [Base.tokens, List.cons_append, List.append_assoc]
    exact takeBase_paren first last (inner.taken hb hlast)
  | braces group => exact takeBase_braces group rest
  | function word arguments =>
    refine takeBase_function word arguments (h.ne rfl (by decide) (by decide)) ?_
    exact afterResult_of_ne (h.ne rfl (by decide) (by decide))
  | functionTo word arguments colon result =>
    have hcolon : afterResult (colon.1 :: (result.tokens ++ rest)) = .ok rest := by
      rw [afterResult, if_pos colon.2, result.taken hb (hopen rfl)]
      rfl
    rw [Base.tokens, List.cons_append, List.append_assoc, List.cons_append]
    refine takeBase_function word arguments ?_ hcolon
    intro k hk
    obtain rfl : colon.1 = k := by simpa using hk
    rw [colon.2]
    decide
  | name word arguments => exact takeBase_name word arguments (h.ne rfl (by decide) (by decide))
  | literal word => simp [Base.tokens, takeBase, word.2]; rfl

end

/-! ### What is read is a tree -/

/-- Whatever is read off as a type with marks has a tree, and no mark is left behind it. -/
def UnaryRead (ts : List Token) : Prop :=
  ∀ info rest, takeUnary ts = .ok (info, rest) →
    ∃ u : Unary, u.Innermost ∧ u.tokens ++ rest = ts ∧ u.info = info ∧ Stops rest

def TopRead (ts : List Token) : Prop :=
  ∀ info rest, takeTop ts = .ok (info, rest) →
    ∃ e : TypeExpr, e.Innermost ∧ e.tokens ++ rest = ts ∧ e.info = info

def MembersRead (ts : List Token) : Prop :=
  ∀ names all rest, takeMembers names ts = .ok (all, rest) →
    ∃ ms : Members, ms.Innermost ∧ ms.tokens ++ rest = ts ∧ names ++ ms.members = all ∧
      rest.head?.map Token.kind ≠ some .pipe

theorem exists_optional {opening closing : Kind} {shown : Text} {ts rest : List Token}
    (h : takeGroup opening closing shown ts = .ok rest) :
    ∃ g : Option (Group opening closing), Group.optional g ++ rest = ts := by
  obtain ⟨r, hr, rfl⟩ := Except.map_eq_ok_iff.1 h
  cases ts with
  | nil =>
    cases hr
    exact ⟨none, rfl⟩
  | cons k ts =>
    rw [skipGroup] at hr
    split_ifs at hr with hk
    · split at hr
      · rename_i after hafter
        cases hr
        obtain ⟨g, hg⟩ := exists_group hk hafter
        exact ⟨some g, hg⟩
      · cases hr
    · cases hr
      exact ⟨none, rfl⟩

theorem exists_signed (sign : Sign) {ts rest : List Token} {info : TypeInfo} (hts : UnaryRead ts)
    (h : takeBase (sign.1 :: ts) = .ok (info, rest)) :
    ∃ inner : Unary, inner.Innermost ∧ inner.tokens ++ rest = ts ∧
      (Base.signed sign inner).info = info ∧ Stops rest := by
  have hread : ∃ info, takeUnary ts = .ok (info, rest) := by
    rcases isSign_iff.1 sign.2 with hkind | hkind | hkind <;>
      simp only [takeBase, hkind, Except.map_eq_ok_iff] at h
    · obtain ⟨r, hr, he⟩ := h
      cases he
      exact ⟨r.1, hr⟩
    · obtain ⟨r, hr, he⟩ := h
      cases he
      exact ⟨r.1, hr⟩
    · exact ⟨info, h⟩
  obtain ⟨_, hread⟩ := hread
  obtain ⟨inner, hinner, htokens, rfl, hstops⟩ := hts _ _ hread
  have hagain := takeBase_signed sign hread
  rw [h] at hagain
  cases hagain
  exact ⟨inner, hinner, htokens, rfl, hstops⟩

/-- The result of a function, if one is read, is a tree. -/
theorem exists_result {ts rest : List Token} (hts : ∀ s, s.length < ts.length → UnaryRead s)
    (h : afterResult ts = .ok rest) : rest = ts ∨
      ∃ (colon : Of .colon) (result : Unary), result.Innermost ∧
        colon.1 :: (result.tokens ++ rest) = ts ∧ Stops rest := by
  cases ts with
  | nil =>
    cases h
    exact .inl rfl
  | cons k ts =>
    rw [afterResult] at h
    split_ifs at h with hk
    · obtain ⟨⟨info, after⟩, hr, rfl⟩ := Except.map_eq_ok_iff.1 h
      obtain ⟨result, hresult, htokens, -, hstops⟩ := hts ts (by simp) info after hr
      exact .inr ⟨⟨k, hk⟩, result, hresult, by rw [htokens], hstops⟩
    · cases h
      exact .inl rfl

theorem exists_paren (first : Of .parenOpen) {ts rest : List Token} {info : TypeInfo} (hts : TopRead ts)
    (h : takeBase (first.1 :: ts) = .ok (info, rest)) :
    ∃ (inner : TypeExpr) (last : Of .parenClose), inner.Innermost ∧
      inner.tokens ++ last.1 :: rest = ts ∧ inner.info = info := by
  simp only [takeBase, first.2, Except.bind_eq_ok_iff, Except.map_eq_ok_iff] at h
  obtain ⟨⟨inner, after⟩, hr, rest', hrest, he⟩ := h
  cases he
  obtain ⟨e, he, htokens, rfl⟩ := hts _ _ hr
  cases after with
  | nil => cases hrest
  | cons last after =>
    rw [afterParen] at hrest
    split_ifs at hrest with hlast
    cases hrest
    exact ⟨e, ⟨last, hlast⟩, he, htokens, rfl⟩

theorem exists_function (word : Of .function) {ts rest : List Token} {info : TypeInfo}
    (hts : ∀ s, s.length ≤ ts.length → UnaryRead s) (h : takeBase (word.1 :: ts) = .ok (info, rest)) :
    ∃ b : Base, b.Innermost ∧ b.tokens ++ rest = word.1 :: ts ∧ b.info = info ∧
      (b.isOpen = true → Stops rest) := by
  simp only [takeBase, word.2, Except.bind_eq_ok_iff, Except.map_eq_ok_iff] at h
  obtain ⟨after, hafter, rest', hrest, he⟩ := h
  cases he
  obtain ⟨g, rfl⟩ := exists_optional hafter
  have hshort : ∀ s, s.length < after.length → UnaryRead s := by
    intro s hs
    apply hts
    rw [List.length_append]
    omega
  rcases exists_result hshort hrest with rfl | ⟨colon, result, hresult, rfl, hstops⟩
  · exact ⟨.function word g, trivial, rfl, rfl, by simp [Base.isOpen]⟩
  · exact ⟨.functionTo word g colon result, hresult, by simp [Base.tokens], rfl, fun _ => hstops⟩

/-- One type without its marks, given that whatever is read off fewer tokens has a tree. -/
theorem exists_base {ts rest : List Token} {info : TypeInfo}
    (hunary : ∀ s, s.length < ts.length → UnaryRead s) (htop : ∀ s, s.length < ts.length → TopRead s)
    (h : takeBase ts = .ok (info, rest)) :
    ∃ b : Base, b.Innermost ∧ b.tokens ++ rest = ts ∧ b.info = info ∧
      (b.isOpen = true → Stops rest) := by
  cases ts with
  | nil => cases h
  | cons k ts =>
    have hshort : ts.length < (k :: ts).length := by simp
    cases hkind : k.kind with
    | question | bang | ellipsis =>
      let sign : Sign := ⟨k, by rw [hkind]; rfl⟩
      obtain ⟨inner, hinner, htokens, rfl, hstops⟩ := exists_signed sign (hunary ts hshort) h
      exact ⟨.signed sign inner, hinner, by simp [Base.tokens, htokens, sign], rfl, fun _ => hstops⟩
    | star =>
      simp only [takeBase, hkind] at h
      cases h
      exact ⟨.star ⟨k, hkind⟩, trivial, rfl, rfl, by simp [Base.isOpen]⟩
    | parenOpen =>
      obtain ⟨inner, last, hinner, htokens, rfl⟩ := exists_paren ⟨k, hkind⟩ (htop ts hshort) h
      exact ⟨.paren ⟨k, hkind⟩ inner last, hinner, by simp [Base.tokens, htokens], rfl,
        by simp [Base.isOpen]⟩
    | braceOpen =>
      simp only [takeBase, hkind] at h
      cases hafter : afterGroup? .braceOpen .braceClose 1 ts with
      | none => simp [hafter] at h
      | some after =>
        rw [hafter] at h
        cases h
        obtain ⟨g, hg⟩ := exists_group hkind hafter
        exact ⟨.braces g, trivial, hg, rfl, by simp [Base.isOpen]⟩
    | function => exact exists_function ⟨k, hkind⟩ (fun s hs => hunary s (Nat.lt_succ_of_le hs)) h
    | name =>
      simp only [takeBase, hkind, Except.map_eq_ok_iff] at h
      obtain ⟨after, hafter, he⟩ := h
      cases he
      obtain ⟨g, rfl⟩ := exists_optional hafter
      exact ⟨.name ⟨k, hkind⟩ g, trivial, rfl, rfl, by simp [Base.isOpen]⟩
    | literal =>
      simp only [takeBase, hkind] at h
      cases h
      exact ⟨.literal ⟨k, hkind⟩, trivial, rfl, rfl, by simp [Base.isOpen]⟩
    | _ => simp [takeBase, hkind] at h

theorem Unary.length_tokens_pos (u : Unary) : 0 < u.tokens.length := by
  cases u with
  | mk base marks => cases base <;> simp [Unary.tokens, Base.tokens, Group.tokens]

theorem unaryRead_of_shorter {ts : List Token} (hunary : ∀ s, s.length < ts.length → UnaryRead s)
    (htop : ∀ s, s.length < ts.length → TopRead s) : UnaryRead ts := by
  intro info rest h
  rw [takeUnary_eq] at h
  obtain ⟨⟨baseInfo, after⟩, hbase, hmarks⟩ := Except.map_eq_ok_iff.1 h
  obtain ⟨b, hb, rfl, rfl, hopen⟩ := exists_base hunary htop hbase
  obtain ⟨marks, rest', rfl, hstops⟩ := exists_marks after
  have happly := applyMarks_reading marks b.names b.nulls b.isOptional hstops
  obtain ⟨rfl, rfl⟩ : (Unary.mk b marks).info = info ∧ rest' = rest :=
    Prod.ext_iff.1 (happly.symm.trans hmarks)
  refine ⟨.mk b marks, ⟨hb, fun hb => ?_⟩, by simp [Unary.tokens], rfl, hstops⟩
  cases marks with
  | nil => rfl
  | cons mark marks =>
    have hmark := hopen hb mark.1 rfl
    rw [mark.2] at hmark
    cases hmark

theorem membersRead_of_shorter {ts : List Token} (hunary : ∀ s, s.length < ts.length → UnaryRead s)
    (hmembers : ∀ s, s.length < ts.length → MembersRead s) : MembersRead ts := by
  intro names all rest h
  cases ts with
  | nil =>
    rw [takeMembers_nil] at h
    cases h
    exact ⟨.nil, trivial, rfl, by simp [Members.members], by simp⟩
  | cons k ts =>
    by_cases hk : k.kind = .pipe
    · rw [takeMembers_bar names hk] at h
      obtain ⟨⟨info, after⟩, hfirst, hothers⟩ := Except.bind_eq_ok_iff.1 h
      obtain ⟨member, hmember, rfl, rfl, -⟩ := hunary ts (by simp) _ _ hfirst
      have hshort : after.length < (k :: (member.tokens ++ after)).length := by
        rw [List.length_cons, List.length_append]
        omega
      obtain ⟨others, hinner, rfl, rfl, hend⟩ := hmembers after hshort _ _ _ hothers
      refine ⟨.cons ⟨k, hk⟩ member others, ⟨hmember, hinner⟩, by simp [Members.tokens], ?_, hend⟩
      rw [Members.members, ← List.append_assoc, member.toList_info_names]
    · rw [takeMembers_stop names hk] at h
      cases h
      exact ⟨.nil, trivial, rfl, by simp [Members.members], by simpa using hk⟩

/-- A union is read where the first type leaves a bar in front; else there is one type. -/
theorem topRead_of_shorter {ts : List Token} (hfirst : UnaryRead ts)
    (hmembers : ∀ s, s.length < ts.length → MembersRead s) : TopRead ts := by
  intro info rest h
  rw [takeTop_eq] at h
  obtain ⟨⟨firstInfo, after⟩, hunary, h⟩ := Except.bind_eq_ok_iff.1 h
  obtain ⟨first, hinner, rfl, rfl, -⟩ := hfirst _ _ hunary
  dsimp only at h
  split_ifs at h with hbar
  · obtain ⟨⟨all, rest'⟩, hothers, he⟩ := Except.map_eq_ok_iff.1 h
    cases he
    have hshort : after.length < (first.tokens ++ after).length := by
      have := first.length_tokens_pos
      rw [List.length_append]
      omega
    obtain ⟨others, hothersInner, rfl, rfl, hend⟩ := hmembers after hshort _ _ _ hothers
    cases others with
    | nil => exact absurd hbar hend
    | cons bar member others =>
      refine ⟨.mk first (.cons bar member others), ⟨hinner, hothersInner⟩, by simp [TypeExpr.tokens], ?_⟩
      rw [first.toList_info_names]
      rfl
  · cases h
    exact ⟨.mk first .nil, ⟨hinner, trivial⟩, by simp [TypeExpr.tokens, Members.tokens], rfl⟩

theorem reads_trees (ts : List Token) : UnaryRead ts ∧ MembersRead ts ∧ TopRead ts := by
  induction hn : ts.length using Nat.strong_induction_on generalizing ts with
  | _ n ih =>
    subst hn
    have hunary := unaryRead_of_shorter (fun s hs => (ih _ hs s rfl).1) (fun s hs => (ih _ hs s rfl).2.2)
    have hmembers := membersRead_of_shorter (fun s hs => (ih _ hs s rfl).1)
      (fun s hs => (ih _ hs s rfl).2.1)
    exact ⟨hunary, hmembers, topRead_of_shorter hunary fun s hs => (ih _ hs s rfl).2.1⟩

/-! ### Whole lists of tokens -/

/-- The reader of all tokens takes one type expression and nothing after it. -/
theorem readTokens_eq_ok_iff {ts : List Token} {info : TypeInfo} :
    readTokens ts = .ok info ↔ takeTop ts = .ok (info, []) := by
  cases ts with
  | nil =>
    rw [takeTop_eq, takeUnary_eq]
    simp [readTokens, takeBase, Except.map, Except.bind]
  | cons k ts =>
    rw [readTokens, takeTop]
    rcases readTop (k :: ts) with e | ⟨info', _ | ⟨k', rest⟩, h⟩
    · simp [Except.map]
    · simp [Except.map, partsOf]
    · simp [Except.map, partsOf]

/-- The tokens that can be read are those of a type expression, and what is read is the meaning of
the expression in which every mark belongs to the innermost type that ends before it. -/
theorem readTokens_exact (ts : List Token) :
    ((∃ info, readTokens ts = .ok info) ↔ ∃ e : TypeExpr, e.tokens = ts) ∧
    ∀ info, readTokens ts = .ok info ↔ ∃ e : TypeExpr, e.tokens = ts ∧ e.Innermost ∧ e.info = info := by
  have hmeaning : ∀ info, readTokens ts = .ok info ↔
      ∃ e : TypeExpr, e.tokens = ts ∧ e.Innermost ∧ e.info = info := by
    intro info
    rw [readTokens_eq_ok_iff]
    constructor
    · intro h
      obtain ⟨e, he, htokens, hinfo⟩ := (reads_trees ts).2.2 info [] h
      exact ⟨e, by simpa using htokens, he, hinfo⟩
    · rintro ⟨e, rfl, he, rfl⟩
      have hend : Closes [] := by simp [Closes]
      simpa using e.taken he hend
  refine ⟨⟨?_, ?_⟩, hmeaning⟩
  · rintro ⟨info, h⟩
    obtain ⟨e, htokens, -⟩ := (hmeaning info).1 h
    exact ⟨e, htokens⟩
  · rintro ⟨e, rfl⟩
    exact ⟨e.settle.info, (hmeaning _).2 ⟨e.settle, e.tokens_settle, e.innermost_settle, rfl⟩⟩

end TemplateDocs.Parameter
