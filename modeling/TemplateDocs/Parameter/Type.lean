import TemplateDocs.Parameter.Token
import TemplateDocs.Text.Taken

/-!
# Type expressions

The type of a parameter is reduced to the names a reader of the documentation sees: one name, or the
members of a union. Whatever stands inside braces, angle brackets or the argument list of a function
is skipped. Nullability and optionality are read off the marks around a type; a union has neither.
-/
namespace TemplateDocs.Parameter

inductive Names where
  | single (name : Text)
  | union (names : List Text)
  deriving DecidableEq, Repr

def Names.toList : Names → List Text
  | .single name => [name]
  | .union names => names

structure TypeInfo where
  names : Names
  nullable : Bool
  optional : Bool
  deriving DecidableEq, Repr

def TypeInfo.named (name : Text) : TypeInfo := ⟨.single name, false, false⟩

inductive TypeFault where
  | badCharacters (run : Text)
  | empty
  | unexpected (token : Text)
  | expectedType
  | expectedClosing (closing : Text)
  deriving DecidableEq, Repr

def TypeFault.message : TypeFault → Text
  | .badCharacters run => "unexpected character `".toList ++ run ++ "` in type".toList
  | .empty => "empty type annotation".toList
  | .unexpected token => "unexpected `".toList ++ token ++ "` in type".toList
  | .expectedType => "expected a type".toList
  | .expectedClosing closing => "expected `".toList ++ closing ++ "` in type".toList

/-- The tokens after the bracket that closes `depth` open ones. -/
def afterGroup? (opening closing : Kind) : Nat → List Token → Option (List Token)
  | _, [] => none
  | depth, k :: ts =>
    if k.kind = opening then afterGroup? opening closing (depth + 1) ts
    else if k.kind = closing then
      if depth ≤ 1 then some ts else afterGroup? opening closing (depth - 1) ts
    else afterGroup? opening closing depth ts

theorem afterGroup?_length {opening closing : Kind} {depth : Nat} {ts rest : List Token}
    (h : afterGroup? opening closing depth ts = some rest) : rest.length < ts.length := by
  fun_induction afterGroup? opening closing depth ts with
  | case1 => simp at h
  | case2 depth k ts _ ih => have := ih h; simp; omega
  | case3 => simp_all
  | case4 depth k ts _ _ _ ih => have := ih h; simp; omega
  | case5 depth k ts _ _ ih => have := ih h; simp; omega

/-- The marks after a type, applied from left to right. -/
def applyMarks (info : TypeInfo) : List Token → TypeInfo × List Token
  | [] => (info, [])
  | k :: ts =>
    match k.kind with
    | .arrayMark => applyMarks { info with names := .single "Array".toList } ts
    | .equals => applyMarks { info with optional := true } ts
    | .question => applyMarks { info with nullable := true } ts
    | .bang => applyMarks { info with nullable := false } ts
    | _ => (info, k :: ts)

theorem applyMarks_length (info : TypeInfo) (ts : List Token) :
    (applyMarks info ts).2.length ≤ ts.length := by
  induction ts generalizing info with
  | nil => simp [applyMarks]
  | cons k ts ih =>
    unfold applyMarks
    split
    all_goals first
      | exact Nat.le_succ_of_le (ih _)
      | simp

/-- A bracketed group that may follow a function or a name. -/
def skipGroup (opening closing : Kind) (shown : Text) (ts : List Token) :
    Except TypeFault { rest : List Token // rest.length ≤ ts.length } :=
  match ts with
  | [] => .ok ⟨[], by simp⟩
  | k :: rest =>
    if k.kind = opening then
      match h : afterGroup? opening closing 1 rest with
      | some after => .ok ⟨after, by have := afterGroup?_length h; simp; omega⟩
      | none => .error (.expectedClosing shown)
    else .ok ⟨k :: rest, by simp⟩

/-- A finished type with the marks after it. -/
def marked {k : Token} {ts rest : List Token} (info : TypeInfo) (h : rest.length ≤ ts.length) :
    Taken TypeInfo (k :: ts) :=
  ⟨(applyMarks info rest).1, (applyMarks info rest).2,
    Nat.lt_succ_of_le (Nat.le_trans (applyMarks_length info rest) h)⟩

mutual

/-- A type, or several joined by bars. -/
def readTop (ts : List Token) : Except TypeFault (Taken TypeInfo ts) :=
  match readUnary ts with
  | .error e => .error e
  | .ok first =>
    if (first.rest.head?.map Token.kind) = some .pipe then
      have := first.shorter
      match readMembers first.value.names.toList first.rest with
      | .error e => .error e
      | .ok ⟨(names, rest), h⟩ =>
        .ok ⟨⟨.union names, false, false⟩, rest, Nat.lt_of_le_of_lt h first.shorter⟩
    else .ok first
termination_by 3 * ts.length + 1

/-- The members of a union from a bar on, after those read before. -/
def readMembers (names : List Text) (ts : List Token) :
    Except TypeFault { r : List Text × List Token // r.2.length ≤ ts.length } :=
  match ts with
  | [] => .ok ⟨(names, []), by simp⟩
  | k :: rest =>
    if k.kind = .pipe then
      match readUnary rest with
      | .error e => .error e
      | .ok member =>
        have := member.shorter
        match readMembers (names ++ member.value.names.toList) member.rest with
        | .error e => .error e
        | .ok ⟨r, h⟩ => .ok ⟨r, by simp only [List.length_cons]; omega⟩
    else .ok ⟨(names, k :: rest), by simp⟩
termination_by 3 * ts.length

/-- A type with the marks before and after it. -/
def readUnary (ts : List Token) : Except TypeFault (Taken TypeInfo ts) :=
  match ts with
  | [] => .error .expectedType
  | k :: rest =>
    match k.kind with
    | .question =>
      match readUnary rest with
      | .error e => .error e
      | .ok inner => .ok (marked { inner.value with nullable := true } (Nat.le_of_lt inner.shorter))
    | .bang =>
      match readUnary rest with
      | .error e => .error e
      | .ok inner => .ok (marked { inner.value with nullable := false } (Nat.le_of_lt inner.shorter))
    | .ellipsis =>
      match readUnary rest with
      | .error e => .error e
      | .ok inner => .ok (marked inner.value (Nat.le_of_lt inner.shorter))
    | .star => .ok (marked (.named ['*']) (Nat.le_refl rest.length))
    | .parenOpen =>
      match readTop rest with
      | .error e => .error e
      | .ok ⟨inner, close :: after, h⟩ =>
        if close.kind = .parenClose then
          .ok (marked inner (Nat.le_trans (Nat.le_succ _) (Nat.le_of_lt h)))
        else .error (.expectedClosing [')'])
      | .ok ⟨_, [], _⟩ => .error (.expectedClosing [')'])
    | .braceOpen =>
      match h : afterGroup? .braceOpen .braceClose 1 rest with
      | some after => .ok (marked (.named "Object".toList) (Nat.le_of_lt (afterGroup?_length h)))
      | none => .error (.expectedClosing ['\x7d'])
    | .function =>
      match skipGroup .parenOpen .parenClose [')'] rest with
      | .error e => .error e
      | .ok ⟨[], h⟩ => .ok (marked (.named "Function".toList) h)
      | .ok ⟨colon :: after, h⟩ =>
        if colon.kind = .colon then
          have : after.length < rest.length := h
          match readUnary after with
          | .error e => .error e
          | .ok result =>
            .ok (marked (.named "Function".toList)
              (Nat.le_trans (Nat.le_of_lt result.shorter) (Nat.le_of_lt h)))
        else .ok (marked (.named "Function".toList) h)
    | .name =>
      match skipGroup .angleOpen .angleClose ['>'] rest with
      | .error e => .error e
      | .ok ⟨_, h⟩ => .ok (marked (.named k.text) h)
    | .literal => .ok (marked (.named k.text) (Nat.le_refl rest.length))
    | _ => .error (.unexpected k.text)
termination_by 3 * ts.length

end

/-- The meaning of a whole list of tokens. -/
def readTokens (ts : List Token) : Except TypeFault TypeInfo :=
  match ts with
  | [] => .error .empty
  | _ :: _ =>
    match readTop ts with
    | .error e => .error e
    | .ok ⟨info, [], _⟩ => .ok info
    | .ok ⟨_, k :: _, _⟩ => .error (.unexpected k.text)

/-- The meaning of a type expression. -/
def readType (t : Text) : Except TypeFault TypeInfo :=
  match tokens t with
  | .error run => .error (.badCharacters run)
  | .ok ts => readTokens ts

end TemplateDocs.Parameter
