import Mathlib
import TemplateDocs.Parameter.Type

/-!
# Syntax trees of type expressions

A tree says which tokens it is spelled with and what it means. Marks after a type could belong to any
type that ends there, so one list of tokens can have several trees. `settle` moves every mark to the
innermost type that ends before it and leaves the tokens as they are.
-/
namespace TemplateDocs.Parameter

/-! ### Syntax -/

/-- A token of one kind. -/
abbrev Of (kind : Kind) := { k : Token // k.kind = kind }

/-- Tokens in which the brackets of one pair match; brackets of other pairs count for nothing. -/
inductive Balanced (opening closing : Kind) : List Token → Prop
  | nil : Balanced opening closing []
  | other {k : Token} {ts : List Token} (ho : k.kind ≠ opening) (hc : k.kind ≠ closing)
      (h : Balanced opening closing ts) : Balanced opening closing (k :: ts)
  | group {o c : Token} {inner ts : List Token} (ho : o.kind = opening) (hc : c.kind = closing)
      (hinner : Balanced opening closing inner) (h : Balanced opening closing ts) :
      Balanced opening closing (o :: (inner ++ c :: ts))

/-- Anything at all between two brackets that match. -/
structure Group (opening closing : Kind) where
  first : Of opening
  inner : List Token
  last : Of closing
  balanced : Balanced opening closing inner

def isMark : Kind → Bool
  | .arrayMark | .equals | .question | .bang => true
  | _ => false

/-- What may stand after a type. -/
abbrev Mark := { k : Token // isMark k.kind = true }

def isSign : Kind → Bool
  | .question | .bang | .ellipsis => true
  | _ => false

/-- What may stand before a type. -/
abbrev Sign := { k : Token // isSign k.kind = true }

mutual

/-- A type, or several joined by bars. -/
inductive TypeExpr where
  | mk (first : Unary) (others : Members)

inductive Members where
  | nil
  | cons (bar : Of .pipe) (member : Unary) (others : Members)

/-- A type with the marks after it. -/
inductive Unary where
  | mk (base : Base) (marks : List Mark)

inductive Base where
  | signed (sign : Sign) (inner : Unary)
  | star (sign : Of .star)
  | paren (first : Of .parenOpen) (inner : TypeExpr) (last : Of .parenClose)
  | braces (group : Group .braceOpen .braceClose)
  | function (word : Of .function) (arguments : Option (Group .parenOpen .parenClose))
  | functionTo (word : Of .function) (arguments : Option (Group .parenOpen .parenClose))
      (colon : Of .colon) (result : Unary)
  | name (word : Of .name) (arguments : Option (Group .angleOpen .angleClose))
  | literal (word : Of .literal)

end

def Group.tokens {opening closing : Kind} (g : Group opening closing) : List Token :=
  g.first.1 :: (g.inner ++ [g.last.1])

/-- The tokens of a group that may be missing. -/
def Group.optional {opening closing : Kind} (g : Option (Group opening closing)) : List Token :=
  (g.map Group.tokens).getD []

def markTokens (marks : List Mark) : List Token := marks.map Subtype.val

mutual

def TypeExpr.tokens : TypeExpr → List Token
  | .mk first others => first.tokens ++ others.tokens

def Members.tokens : Members → List Token
  | .nil => []
  | .cons bar member others => bar.1 :: (member.tokens ++ others.tokens)

def Unary.tokens : Unary → List Token
  | .mk base marks => base.tokens ++ markTokens marks

def Base.tokens : Base → List Token
  | .signed sign inner => sign.1 :: inner.tokens
  | .star sign => [sign.1]
  | .paren first inner last => first.1 :: (inner.tokens ++ [last.1])
  | .braces group => group.tokens
  | .function word arguments => word.1 :: Group.optional arguments
  | .functionTo word arguments colon result =>
    word.1 :: (Group.optional arguments ++ colon.1 :: result.tokens)
  | .name word arguments => word.1 :: Group.optional arguments
  | .literal word => [word.1]

end

/-! ### Binding -/

/-- Whether a further type ends where this one does. -/
def Base.isOpen : Base → Bool
  | .signed _ _ | .functionTo _ _ _ _ => true
  | _ => false

mutual

/-- Every mark belongs to the innermost type that ends before it. -/
def TypeExpr.Innermost : TypeExpr → Prop
  | .mk first others => first.Innermost ∧ others.Innermost

def Members.Innermost : Members → Prop
  | .nil => True
  | .cons _ member others => member.Innermost ∧ others.Innermost

def Unary.Innermost : Unary → Prop
  | .mk base marks => base.Innermost ∧ (base.isOpen = true → marks = [])

def Base.Innermost : Base → Prop
  | .signed _ inner => inner.Innermost
  | .paren _ inner _ => inner.Innermost
  | .functionTo _ _ _ result => result.Innermost
  | .star _ | .braces _ | .function _ _ | .name _ _ | .literal _ => True

end

/-! ### Meaning -/

def Members.isEmpty : Members → Bool
  | .nil => true
  | .cons _ _ _ => false

def hasMark (kind : Kind) (marks : List Mark) : Bool := marks.any fun k => k.1.kind = kind

mutual

/-- The names in a type from left to right; a union inside another one gives all of its own. -/
def TypeExpr.members : TypeExpr → List Text
  | .mk first others => first.members ++ others.members

def Members.members : Members → List Text
  | .nil => []
  | .cons _ member others => member.members ++ others.members

def Unary.members : Unary → List Text
  | .mk base marks => if hasMark .arrayMark marks then ["Array".toList] else base.members

def Base.members : Base → List Text
  | .signed _ inner => inner.members
  | .star _ => [['*']]
  | .paren _ inner _ => inner.members
  | .braces _ => ["Object".toList]
  | .function _ _ | .functionTo _ _ _ _ => ["Function".toList]
  | .name word _ | .literal word => [word.1.text]

end

mutual

/-- The names that are shown: those of all members, or the one of a single type. -/
def TypeExpr.names : TypeExpr → Names
  | .mk first others =>
    if others.isEmpty then first.names else .union (first.members ++ others.members)

def Unary.names : Unary → Names
  | .mk base marks => if hasMark .arrayMark marks then .single "Array".toList else base.names

def Base.names : Base → Names
  | .signed _ inner => inner.names
  | .star _ => .single ['*']
  | .paren _ inner _ => inner.names
  | .braces _ => .single "Object".toList
  | .function _ _ | .functionTo _ _ _ _ => .single "Function".toList
  | .name word _ | .literal word => .single word.1.text

end

mutual

theorem TypeExpr.toList_names (e : TypeExpr) : e.names.toList = e.members := by
  cases e with
  | mk first others =>
    cases others with
    | nil =>
      rw [TypeExpr.members, Members.members, List.append_nil]
      exact first.toList_names
    | cons bar member others => rfl

theorem Unary.toList_names (u : Unary) : u.names.toList = u.members := by
  cases u with
  | mk base marks =>
    rw [Unary.names, Unary.members, apply_ite Names.toList, base.toList_names]
    rfl

theorem Base.toList_names (b : Base) : b.names.toList = b.members := by
  cases b with
  | signed sign inner => exact inner.toList_names
  | paren first inner last => exact inner.toList_names
  | star | braces | function | functionTo | name | literal => rfl

end

mutual

/-- Whether the type is marked as optional. A union and the result of a function hand nothing on. -/
def TypeExpr.isOptional : TypeExpr → Bool
  | .mk first others => others.isEmpty && first.isOptional

def Unary.isOptional : Unary → Bool
  | .mk base marks => base.isOptional || hasMark .equals marks

def Base.isOptional : Base → Bool
  | .signed _ inner => inner.isOptional
  | .paren _ inner _ => inner.isOptional
  | .star _ | .braces _ | .function _ _ | .functionTo _ _ _ _ | .name _ _ | .literal _ => false

end

/-- The marks of a list that speak about null. -/
def nullKinds (ks : List Token) : List Kind :=
  (ks.map Token.kind).filter fun kind => kind = .question ∨ kind = .bang

mutual

/-- What is said about null, in the order in which it applies: the marks after a type from left to
right, and then the signs before it from the inside out. -/
def TypeExpr.nulls : TypeExpr → List Kind
  | .mk first others => if others.isEmpty then first.nulls else []

def Unary.nulls : Unary → List Kind
  | .mk base marks => base.nulls ++ nullKinds (markTokens marks)

def Base.nulls : Base → List Kind
  | .signed sign inner => inner.nulls ++ nullKinds [sign.1]
  | .paren _ inner _ => inner.nulls
  | .star _ | .braces _ | .function _ _ | .functionTo _ _ _ _ | .name _ _ | .literal _ => []

end

/-- A type of which the last word about null counts. -/
def reading (names : Names) (nulls : List Kind) (isOptional : Bool) : TypeInfo :=
  ⟨names, nulls.getLast? = some .question, isOptional⟩

def TypeExpr.info (e : TypeExpr) : TypeInfo := reading e.names e.nulls e.isOptional

def Unary.info (u : Unary) : TypeInfo := reading u.names u.nulls u.isOptional

def Base.info (b : Base) : TypeInfo := reading b.names b.nulls b.isOptional

theorem Unary.toList_info_names (u : Unary) : u.info.names.toList = u.members := u.toList_names

/-! ### Marks moved inwards -/

mutual

/-- The same tokens and some marks after them, every mark bound as far in as it can be. -/
def Unary.settle (more : List Mark) : Unary → Unary
  | .mk base marks => base.settle (marks ++ more)

def Base.settle (marks : List Mark) : Base → Unary
  | .signed sign inner => .mk (.signed sign (inner.settle marks)) []
  | .functionTo word arguments colon result =>
    .mk (.functionTo word arguments colon (result.settle marks)) []
  | .paren first inner last => .mk (.paren first inner.settle last) marks
  | .star sign => .mk (.star sign) marks
  | .braces group => .mk (.braces group) marks
  | .function word arguments => .mk (.function word arguments) marks
  | .name word arguments => .mk (.name word arguments) marks
  | .literal word => .mk (.literal word) marks

def Members.settle : Members → Members
  | .nil => .nil
  | .cons bar member others => .cons bar (member.settle []) others.settle

def TypeExpr.settle : TypeExpr → TypeExpr
  | .mk first others => .mk (first.settle []) others.settle

end

theorem markTokens_append (marks more : List Mark) :
    markTokens (marks ++ more) = markTokens marks ++ markTokens more := List.map_append

mutual

theorem Unary.tokens_settle (u : Unary) (more : List Mark) :
    (u.settle more).tokens = u.tokens ++ markTokens more := by
  cases u with
  | mk base marks =>
    rw [Unary.settle, base.tokens_settle, markTokens_append, Unary.tokens, List.append_assoc]

theorem Base.tokens_settle (b : Base) (marks : List Mark) :
    (b.settle marks).tokens = b.tokens ++ markTokens marks := by
  cases b with
  | signed sign inner =>
    simp [Base.settle, Unary.tokens, Base.tokens, inner.tokens_settle, markTokens]
  | functionTo word arguments colon result =>
    simp [Base.settle, Unary.tokens, Base.tokens, result.tokens_settle, markTokens]
  | paren first inner last => simp [Base.settle, Unary.tokens, Base.tokens, inner.tokens_settle]
  | star | braces | function | name | literal => rfl

theorem Members.tokens_settle (ms : Members) : ms.settle.tokens = ms.tokens := by
  cases ms with
  | nil => rfl
  | cons bar member others =>
    simp [Members.settle, Members.tokens, member.tokens_settle, others.tokens_settle, markTokens]

theorem TypeExpr.tokens_settle (e : TypeExpr) : e.settle.tokens = e.tokens := by
  cases e with
  | mk first others =>
    simp [TypeExpr.settle, TypeExpr.tokens, first.tokens_settle, others.tokens_settle, markTokens]

end

mutual

theorem Unary.innermost_settle (u : Unary) (more : List Mark) : (u.settle more).Innermost := by
  cases u with
  | mk base marks => exact base.innermost_settle (marks ++ more)

theorem Base.innermost_settle (b : Base) (marks : List Mark) : (b.settle marks).Innermost := by
  cases b with
  | signed sign inner => exact ⟨inner.innermost_settle marks, fun _ => rfl⟩
  | functionTo word arguments colon result => exact ⟨result.innermost_settle marks, fun _ => rfl⟩
  | paren first inner last => exact ⟨inner.innermost_settle, nofun⟩
  | star | braces | function | name | literal => exact ⟨trivial, nofun⟩

theorem Members.innermost_settle (ms : Members) : ms.settle.Innermost := by
  cases ms with
  | nil => trivial
  | cons bar member others => exact ⟨member.innermost_settle [], others.innermost_settle⟩

theorem TypeExpr.innermost_settle (e : TypeExpr) : e.settle.Innermost := by
  cases e with
  | mk first others => exact ⟨first.innermost_settle [], others.innermost_settle⟩

end

end TemplateDocs.Parameter
