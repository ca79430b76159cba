import TemplateDocs.Jinja.Token
import TemplateDocs.Jinja.Tree

/-!
# Reading Jinja templates

Expressions bind, from loose to tight: conditions, `or`, `and`, `not`, comparisons, sums, `~`,
products, signs, and last what follows a value (attributes, indices, calls, filters and tests).
-/
namespace TemplateDocs.Jinja

abbrev Lexemes := List Lexeme

/-- A reader that takes at least one token. -/
abbrev Reads (α : Type) (ts : Lexemes) := Except Fault (Taken α ts)

/-- A reader that may take none. -/
abbrev Tries (α : Type) (ts : Lexemes) := Except Fault (Passed α ts)

/-- The fault of a token that is not the expected one. -/
def mismatch (expected : String) (x : Lexeme) : Fault :=
  match x.token with
  | .fault cause => ⟨cause, x.line⟩
  | .finish => ⟨.endOfInput expected.toList, x.line⟩
  | t => ⟨.mismatch t.shown expected.toList, x.line⟩

/-- The fault where no token is left; every list of tokens ends in one that is never taken. -/
def exhausted (expected : String) : Fault := ⟨.endOfInput expected.toList, 1⟩

def isMark (m : String) (x : Lexeme) : Bool :=
  match x.token with
  | .mark n => n = m.toList
  | _ => false

def isWord (w : String) (x : Lexeme) : Bool :=
  match x.token with
  | .name n => n = w.toList
  | _ => false

def isBlockEnd (x : Lexeme) : Bool :=
  match x.token with
  | .blockEnd => true
  | _ => false

def isVariableEnd (x : Lexeme) : Bool :=
  match x.token with
  | .variableEnd => true
  | _ => false

/-- Takes a token that `p` accepts. -/
def expect (expected : String) (p : Lexeme → Bool) (ts : Lexemes) : Reads Unit ts :=
  match ts with
  | [] => .error (exhausted expected)
  | x :: _ => if p x then .ok (.step ()) else .error (mismatch expected x)

/-- Takes a name. -/
def expectName (ts : Lexemes) : Reads Text ts :=
  match ts with
  | [] => .error (exhausted "identifier")
  | x :: _ =>
    match x.token with
    | .name n => .ok (.step n)
    | _ => .error (mismatch "identifier" x)

/-- Takes a token if `p` accepts it and says whether it did. -/
def skip (p : Lexeme → Bool) (ts : Lexemes) : Passed Bool ts :=
  match ts with
  | [] => .stay false
  | x :: rest => if p x then ⟨true, rest, Nat.le_succ _⟩ else .stay false

/-! ## Operators by level -/

/-- The levels of binary operators, from loose to tight. -/
def orLevel : Nat := 0
def andLevel : Nat := 1
def notLevel : Nat := 2
def compareLevel : Nat := 3
def sumLevel : Nat := 4
def concatLevel : Nat := 5
def productLevel : Nat := 6
def unaryLevel : Nat := 7

def simpleOperator? (level : Nat) (t : Token) : Option Operator :=
  match t with
  | .name n =>
    if level = orLevel ∧ n = "or".toList then some .or_
    else if level = andLevel ∧ n = "and".toList then some .and_
    else if level = compareLevel ∧ n = "in".toList then some .in_
    else none
  | .mark m =>
    if level = compareLevel then
      if m = "==".toList then some .equal
      else if m = "!=".toList then some .notEqual
      else if m = "<".toList then some .less
      else if m = "<=".toList then some .lessEqual
      else if m = ">".toList then some .greater
      else if m = ">=".toList then some .greaterEqual
      else none
    else if level = sumLevel then
      if m = "+".toList then some .add else if m = "-".toList then some .subtract else none
    else if level = concatLevel then if m = "~".toList then some .concat else none
    else if level = productLevel then
      if m = "*".toList then some .multiply else if m = "/".toList then some .divide else none
    else none
  | _ => none

/-- The operator of a level at the front of the tokens. -/
def operator? (level : Nat) (ts : Lexemes) : Tries (Option Operator) ts :=
  match ts with
  | [] => .ok (.stay none)
  | x :: rest =>
    if level = compareLevel ∧ isWord "not" x then
      match expect "in" (isWord "in") rest with
      | .error e => .error e
      | .ok r => .ok ⟨some .notIn, r.rest, Nat.le_succ_of_le (Nat.le_of_lt r.shorter)⟩
    else
      match simpleOperator? level x.token with
      | some op => .ok ⟨some op, rest, Nat.le_succ _⟩
      | none => .ok (.stay none)

/-- Words that never start the argument of a test. -/
def isConnective (x : Lexeme) : Bool :=
  isWord "and" x || isWord "or" x || isWord "else" x || isWord "is" x

def startsArgument (x : Lexeme) : Bool :=
  match x.token with
  | .name _ => !isConnective x
  | .string _ | .integer _ | .float _ => true
  | .mark [c] => c = '+' || c = '-' || c = '[' || c = '\x7b'
  | _ => false

def callOf : Expr → List Expr → Expr
  | .name _ n, arguments => .call n arguments
  | .attribute e n, arguments => .method e n arguments
  | e, arguments => .callValue e arguments

def constant? (n : Text) : Option Value :=
  if n = "true".toList ∨ n = "True".toList then some (.bool true)
  else if n = "false".toList ∨ n = "False".toList then some (.bool false)
  else if n = "none".toList ∨ n = "None".toList then some .none_
  else none

/-! ## Expressions -/

mutual

/-- An expression, perhaps with conditions after it. -/
def readExpr (ts : Lexemes) : Reads Expr ts :=
  match readLevel orLevel ts with
  | .error e => .error e
  | .ok first =>
    have := first.shorter
    match readConditions first.value first.rest with
    | .error e => .error e
    | .ok r => .ok (r.taken first.shorter)
termination_by 16 * ts.length + 12

def readConditions (e : Expr) (ts : Lexemes) : Tries Expr ts :=
  match ts with
  | [] => .ok (.stay e)
  | x :: rest =>
    if isWord "if" x then
      match readLevel orLevel rest with
      | .error e => .error e
      | .ok test =>
        have := test.shorter
        match htail : test.rest with
        | [] => .ok ⟨.ifElse test.value e .absent, [], by simp⟩
        | y :: tail =>
          have : test.rest.length = tail.length + 1 := by simp [htail]
          if isWord "else" y then
            match readExpr tail with
            | .error e => .error e
            | .ok no =>
              have := no.shorter
              match readConditions (.ifElse test.value e no.value) no.rest with
              | .error e => .error e
              | .ok r => .ok (r.widen (by simp only [List.length_cons]; omega))
          else
            match readConditions (.ifElse test.value e .absent) (y :: tail) with
            | .error e => .error e
            | .ok r => .ok (r.widen (by simp only [List.length_cons]; omega))
    else .ok (.stay e)
termination_by 16 * ts.length

/-- An expression whose operators bind at least as tight as `level`. -/
def readLevel (level : Nat) (ts : Lexemes) : Reads Expr ts :=
  if h : level < unaryLevel then
    have : 7 - (level + 1) < 7 - level := by unfold unaryLevel at h; omega
    match ts with
    | [] => .error (exhausted "expression")
    | x :: rest =>
      if level = notLevel ∧ isWord "not" x then
        match readLevel level rest with
        | .error e => .error e
        | .ok r => .ok (r.map .not_ |>.widen (Nat.le_succ _))
      else
        match readLevel (level + 1) (x :: rest) with
        | .error e => .error e
        | .ok first =>
          have : first.rest.length ≤ rest.length := Nat.le_of_lt_succ first.shorter
          match readOperators level first.value first.rest with
          | .error e => .error e
          | .ok r => .ok (r.taken first.shorter)
  else readUnary ts
termination_by 16 * ts.length + (7 - level) + 4

/-- Further operands of a level after the first. -/
def readOperators (level : Nat) (left : Expr) (ts : Lexemes) : Tries Expr ts :=
  match operator? level ts with
  | .error e => .error e
  | .ok ⟨none, _, _⟩ => .ok (.stay left)
  | .ok ⟨some op, rest, hrest⟩ =>
    if hlt : rest.length < ts.length then
      match readLevel (level + 1) rest with
      | .error e => .error e
      | .ok right =>
        have := right.shorter
        match readOperators level (.binary op left right.value) right.rest with
        | .error e => .error e
        | .ok r => .ok (r.widen (by omega))
    else .ok (.stay left)
termination_by 16 * ts.length

/-- A value with all that follows it. -/
def readUnary (ts : Lexemes) : Reads Expr ts :=
  match readSigned ts with
  | .error e => .error e
  | .ok first =>
    have := first.shorter
    match readParts first.value first.rest with
    | .error e => .error e
    | .ok parts =>
      have := parts.bound
      match readFilters parts.value parts.rest with
      | .error e => .error e
      | .ok r => .ok ((r.widen parts.bound).taken first.shorter)
termination_by 16 * ts.length + 3

def readSigned (ts : Lexemes) : Reads Expr ts :=
  match ts with
  | [] => .error (exhausted "expression")
  | x :: rest =>
    if isMark "-" x then
      match readSigned rest with
      | .error e => .error e
      | .ok r => .ok (r.map .negate |>.widen (Nat.le_succ _))
    else readPrimary (x :: rest)
termination_by 16 * ts.length + 2

def readPrimary (ts : Lexemes) : Reads Expr ts :=
  match ts with
  | [] => .error (exhausted "expression")
  | x :: rest =>
    match x.token with
    | .name n =>
      match constant? n with
      | some v => .ok (.step (.literal x.line v))
      | none => .ok (.step (.name x.line n))
    | .string s => .ok (.step (.literal x.line (.string s)))
    | .integer n => .ok (.step (.literal x.line (.int n)))
    | .float f => .ok (.step (.literal x.line (.float f)))
    | .fault cause => .error ⟨cause, x.line⟩
    | .finish => .error ⟨.endOfInput "expression".toList, x.line⟩
    | _ =>
      if isMark "(" x then
        match readTuple rest with
        | .error e => .error e
        | .ok r => .ok (r.widen (Nat.le_succ _))
      else if isMark "[" x then
        match readItems "]" true rest with
        | .error e => .error e
        | .ok r => .ok (r.map .list |>.widen (Nat.le_succ _))
      else if isMark "\x7b" x then
        match readEntries true rest with
        | .error e => .error e
        | .ok r =>
          .ok (r.map (fun entries => .map (entries.map Prod.fst) (entries.map Prod.snd))
            |>.widen (Nat.le_succ _))
      else .error ⟨.unexpected x.token.shown, x.line⟩
termination_by 16 * ts.length + 1

/-- What stands in parentheses: one expression, or a list if there is a comma. -/
def readTuple (ts : Lexemes) : Reads Expr ts :=
  match ts with
  | [] => .error (exhausted "expression")
  | x :: rest =>
    if isMark ")" x then .ok (.step (.list []))
    else
      match readExpr (x :: rest) with
      | .error e => .error e
      | .ok first =>
        match htail : first.rest with
        | [] => .error (exhausted "`)`")
        | y :: tail =>
          have hle : tail.length ≤ rest.length := first.tail_length_le htail
          if isMark ")" y then .ok ⟨first.value, tail, Nat.lt_succ_of_le hle⟩
          else if isMark "," y then
            match readItems ")" true tail with
            | .error e => .error e
            | .ok r => .ok (r.map (fun items => .list (first.value :: items))
                |>.widen (Nat.le_succ_of_le hle))
          else .error (mismatch "`)`" y)
termination_by 16 * ts.length + 13

/-- Expressions between commas up to a closing mark; `fresh` says that an expression may stand here. -/
def readItems (closing : String) (fresh : Bool) (ts : Lexemes) : Reads (List Expr) ts :=
  match ts with
  | [] => .error (exhausted "expression")
  | x :: rest =>
    if isMark closing x then .ok (.step [])
    else if fresh then
      match readExpr (x :: rest) with
      | .error e => .error e
      | .ok item =>
        have : item.rest.length ≤ rest.length := Nat.le_of_lt_succ item.shorter
        match readItems closing false item.rest with
        | .error e => .error e
        | .ok r => .ok (r.map (item.value :: ·) |>.widen (Nat.le_of_lt item.shorter))
    else if isMark "," x then
      match readItems closing true rest with
      | .error e => .error e
      | .ok r => .ok (r.widen (Nat.le_succ _))
    else .error (mismatch "`,`" x)
termination_by 16 * ts.length + 13

/-- The entries of a map up to its closing brace. -/
def readEntries (fresh : Bool) (ts : Lexemes) : Reads (List (Expr × Expr)) ts :=
  match ts with
  | [] => .error (exhausted "expression")
  | x :: rest =>
    if isMark "\x7d" x then .ok (.step [])
    else if fresh then
      match readEntry (x :: rest) with
      | .error e => .error e
      | .ok entry =>
        have : entry.rest.length ≤ rest.length := Nat.le_of_lt_succ entry.shorter
        match readEntries false entry.rest with
        | .error e => .error e
        | .ok r => .ok (r.map (entry.value :: ·) |>.widen (Nat.le_of_lt entry.shorter))
    else if isMark "," x then
      match readEntries true rest with
      | .error e => .error e
      | .ok r => .ok (r.widen (Nat.le_succ _))
    else .error (mismatch "`,`" x)
termination_by 16 * ts.length + 14

def readEntry (ts : Lexemes) : Reads (Expr × Expr) ts :=
  match readExpr ts with
  | .error e => .error e
  | .ok key =>
    have := key.shorter
    match expect "`:`" (isMark ":") key.rest with
    | .error e => .error e
    | .ok colon =>
      have := colon.shorter
      match readExpr colon.rest with
      | .error e => .error e
      | .ok v =>
        .ok (v.map (fun v => (key.value, v)) |>.widen (by omega))
termination_by 16 * ts.length + 13

/-- Attributes, indices and calls after a value. -/
def readParts (e : Expr) (ts : Lexemes) : Tries Expr ts :=
  match ts with
  | [] => .ok (.stay e)
  | x :: rest =>
    if isMark "." x then
      match expectName rest with
      | .error e => .error e
      | .ok n =>
        have := n.shorter
        match readParts (.attribute e n.value) n.rest with
        | .error e => .error e
        | .ok r => .ok (r.widen (by simp only [List.length_cons]; omega))
    else if isMark "[" x then
      match readIndex rest with
      | .error e => .error e
      | .ok index =>
        have := index.shorter
        match readParts (.item e index.value) index.rest with
        | .error e => .error e
        | .ok r => .ok (r.widen (by simp only [List.length_cons]; omega))
    else if isMark "(" x then
      match readItems ")" true rest with
      | .error e => .error e
      | .ok arguments =>
        have := arguments.shorter
        match readParts (callOf e arguments.value) arguments.rest with
        | .error e => .error e
        | .ok r => .ok (r.widen (by simp only [List.length_cons]; omega))
    else .ok (.stay e)
termination_by 16 * ts.length

/-- An index up to its closing bracket. -/
def readIndex (ts : Lexemes) : Reads Expr ts :=
  match readExpr ts with
  | .error e => .error e
  | .ok index =>
    have := index.shorter
    match expect "`]`" (isMark "]") index.rest with
    | .error e => .error e
    | .ok r => .ok ⟨index.value, r.rest, Nat.lt_trans r.shorter index.shorter⟩
termination_by 16 * ts.length + 13

/-- Filters and tests after a value. -/
def readFilters (e : Expr) (ts : Lexemes) : Tries Expr ts :=
  match ts with
  | [] => .ok (.stay e)
  | x :: rest =>
    if isMark "|" x then
      match expectName rest with
      | .error e => .error e
      | .ok n =>
        have := n.shorter
        match readArguments n.rest with
        | .error e => .error e
        | .ok arguments =>
          have := arguments.bound
          match readFilters (.filter n.value e (arguments.value.getD [])) arguments.rest with
          | .error e => .error e
          | .ok r => .ok (r.widen (by simp only [List.length_cons]; omega))
    else if isWord "is" x then
      let negated := skip (isWord "not") rest
      have := (skip (isWord "not") rest).bound
      match expectName (skip (isWord "not") rest).rest with
      | .error e => .error e
      | .ok n =>
        have := n.shorter
        match readTestArguments n.rest with
        | .error e => .error e
        | .ok arguments =>
          have := arguments.bound
          let test := Expr.test n.value e arguments.value
          match readFilters (if negated.value then .not_ test else test) arguments.rest with
          | .error e => .error e
          | .ok r => .ok (r.widen (by simp only [List.length_cons]; omega))
    else .ok (.stay e)
termination_by 16 * ts.length

/-- Arguments in parentheses, if there are any. -/
def readArguments (ts : Lexemes) : Tries (Option (List Expr)) ts :=
  match ts with
  | [] => .ok (.stay none)
  | x :: rest =>
    if isMark "(" x then
      match readItems ")" true rest with
      | .error e => .error e
      | .ok r => .ok ⟨some r.value, r.rest, Nat.le_succ_of_le (Nat.le_of_lt r.shorter)⟩
    else .ok (.stay none)
termination_by 16 * ts.length + 14

/-- The arguments of a test: in parentheses, or a single one after a blank. -/
def readTestArguments (ts : Lexemes) : Tries (List Expr) ts :=
  match ts with
  | [] => .ok (.stay [])
  | x :: rest =>
    if isMark "(" x then
      match readItems ")" true rest with
      | .error e => .error e
      | .ok r => .ok ⟨r.value, r.rest, Nat.le_succ_of_le (Nat.le_of_lt r.shorter)⟩
    else if startsArgument x then
      match readSigned (x :: rest) with
      | .error e => .error e
      | .ok first =>
        have : first.rest.length ≤ rest.length := Nat.le_of_lt_succ first.shorter
        match readParts first.value first.rest with
        | .error e => .error e
        | .ok r => .ok (r.map ([·]) |>.widen (Nat.le_of_lt first.shorter))
    else .ok (.stay [])
termination_by 16 * ts.length + 14

end

/-! ## Statements -/

/-- Names that cannot be bound. -/
def reservedNames : List Text :=
  ["true", "True", "false", "False", "none", "None", "loop", "self"].map String.toList

def readBoundName (ts : Lexemes) : Reads Text ts :=
  match ts with
  | [] => .error (exhausted "identifier")
  | x :: rest =>
    match expectName (x :: rest) with
    | .error e => .error e
    | .ok n => if reservedNames.contains n.value then .error ⟨.reservedName n.value, x.line⟩ else .ok n

/-- Where the list of bound names ends. -/
def endsTarget (x : Lexeme) : Bool :=
  isMark ")" x || isVariableEnd x || isBlockEnd x || isWord "in" x

mutual

/-- One name or a group in parentheses. -/
def readTargetItem (ts : Lexemes) : Reads Target ts :=
  match ts with
  | [] => .error (exhausted "identifier")
  | x :: rest =>
    if isMark "(" x then
      match readTarget rest with
      | .error e => .error e
      | .ok group =>
        have := group.bound
        match expect "`)`" (isMark ")") group.rest with
        | .error e => .error e
        | .ok r => .ok ⟨group.value, r.rest, by have := r.shorter; simp; omega⟩
    else
      match readBoundName (x :: rest) with
      | .error e => .error e
      | .ok n => .ok (n.map .name)
termination_by 2 * ts.length

/-- Names between commas. -/
def readTarget (ts : Lexemes) : Tries Target ts :=
  match ts with
  | [] => .error (exhausted "identifier")
  | x :: rest =>
    if endsTarget x then .ok (.stay (.names []))
    else
      match readTargetItem (x :: rest) with
      | .error e => .error e
      | .ok first =>
        have := first.shorter
        have : first.rest.length ≤ rest.length := Nat.le_of_lt_succ this
        match readMoreTargets first.rest with
        | .error e => .error e
        | .ok ⟨none, rest', h⟩ => .ok ⟨first.value, rest', by omega⟩
        | .ok ⟨some others, rest', h⟩ => .ok ⟨.names (first.value :: others), rest', by omega⟩
termination_by 2 * ts.length + 1

/-- The names after a comma; nothing if there is no comma. -/
def readMoreTargets (ts : Lexemes) : Tries (Option (List Target)) ts :=
  match ts with
  | [] => .ok (.stay none)
  | x :: rest =>
    if isMark "," x then
      match rest with
      | [] => .ok ⟨some [], [], by simp⟩
      | y :: tail =>
        if endsTarget y then .ok ⟨some [], y :: tail, by simp⟩
        else
          match readTargetItem (y :: tail) with
          | .error e => .error e
          | .ok item =>
            have : item.rest.length ≤ tail.length := Nat.le_of_lt_succ item.shorter
            match readMoreTargets item.rest with
            | .error e => .error e
            | .ok ⟨others, rest', h⟩ =>
              .ok ⟨some (item.value :: others.getD []), rest', by simp only [List.length_cons]; omega⟩
    else .ok (.stay none)
termination_by 2 * ts.length

end

/-- The condition of a loop. -/
def readLoopFilter (ts : Lexemes) : Tries (Option Expr) ts :=
  match ts with
  | [] => .ok (.stay none)
  | x :: rest =>
    if isWord "if" x then
      match readExpr rest with
      | .error e => .error e
      | .ok r => .ok ⟨some r.value, r.rest, Nat.le_succ_of_le (Nat.le_of_lt r.shorter)⟩
    else .ok (.stay none)

def keywordOf? (x : Lexeme) : Option Text :=
  match x.token with
  | .name n => some n
  | _ => none

/-- Whether a block holds one of the words that end the current body. -/
def endsBody (ends : List String) (x : Lexeme) : Bool := ends.any fun w => isWord w x

mutual

/-- Statements up to a block with one of the words `ends`, or to the end of the template. -/
def readBody (ends : List String) (ts : Lexemes) : Tries (List Statement) ts :=
  match ts with
  | [] => .ok (.stay [])
  | x :: rest =>
    match x.token with
    | .finish => .ok (.stay [])
    | .fault cause => .error ⟨cause, x.line⟩
    | .data t =>
      match readBody ends rest with
      | .error e => .error e
      | .ok r => .ok (r.map (.data t :: ·) |>.widen (Nat.le_succ _))
    | .variableStart =>
      match readExpr rest with
      | .error e => .error e
      | .ok e =>
        have := e.shorter
        match expect "end of variable block" isVariableEnd e.rest with
        | .error e => .error e
        | .ok close =>
          have := close.shorter
          match readBody ends close.rest with
          | .error e => .error e
          | .ok r => .ok (r.map (.emit x.line e.value :: ·) |>.widen (by simp only [List.length_cons]; omega))
    | .blockStart =>
      match rest with
      | [] => .error (exhausted "keyword")
      | y :: tail =>
        match y.token with
        | .finish => .error ⟨.endOfInput "keyword".toList, y.line⟩
        | .fault cause => .error ⟨cause, y.line⟩
        | _ =>
          if endsBody ends y then .ok ⟨[], y :: tail, by simp⟩
          else
            match readStatement (y :: tail) with
            | .error e => .error e
            | .ok statement =>
              have : statement.rest.length ≤ tail.length := Nat.le_of_lt_succ statement.shorter
              match expect "end of block" isBlockEnd statement.rest with
              | .error e => .error e
              | .ok close =>
                have := close.shorter
                match readBody ends close.rest with
                | .error e => .error e
                | .ok r =>
                  .ok (r.map (statement.value :: ·) |>.widen (by simp only [List.length_cons]; omega))
    | _ => .error ⟨.unexpected x.token.shown, x.line⟩
termination_by 8 * ts.length

/-- One statement, from its keyword to before the end of its last block. -/
def readStatement (ts : Lexemes) : Reads Statement ts :=
  match ts with
  | [] => .error (exhausted "block keyword")
  | x :: rest =>
    match keywordOf? x with
    | none => .error ⟨.notStatement x.token.shown, x.line⟩
    | some word =>
      if word = "if".toList then
        match readIf x.line rest with
        | .error e => .error e
        | .ok r => .ok (r.widen (Nat.le_succ _))
      else if word = "for".toList then
        match readFor x.line rest with
        | .error e => .error e
        | .ok r => .ok (r.widen (Nat.le_succ _))
      else if word = "set".toList then
        match readSet x.line rest with
        | .error e => .error e
        | .ok r => .ok (r.widen (Nat.le_succ _))
      else .error ⟨.unknownStatement word, x.line⟩
termination_by 8 * ts.length + 1

/-- A condition with its branches. -/
def readIf (line : Nat) (ts : Lexemes) : Reads Statement ts :=
  match readExpr ts with
  | .error e => .error e
  | .ok test =>
    have := test.shorter
    match expect "end of block" isBlockEnd test.rest with
    | .error e => .error e
    | .ok close =>
      have := close.shorter
      match readBody ["endif", "else", "elif"] close.rest with
      | .error e => .error e
      | .ok yes =>
        have := yes.bound
        match hyes : yes.rest with
        | [] => .ok ⟨.if_ line test.value yes.value [], [], by rw [List.length_nil]; omega⟩
        | y :: tail =>
          have : yes.rest.length = tail.length + 1 := by simp [hyes]
          if isWord "else" y then
            match readElse ["endif"] tail with
            | .error e => .error e
            | .ok no =>
              have := no.bound
              .ok ⟨.if_ line test.value yes.value no.value, no.rest, by omega⟩
          else if isWord "elif" y then
            match readIf y.line tail with
            | .error e => .error e
            | .ok inner =>
              have := inner.shorter
              .ok ⟨.if_ line test.value yes.value [inner.value], inner.rest, by omega⟩
          else if isWord "endif" y then
            .ok ⟨.if_ line test.value yes.value [], tail, by omega⟩
          else .ok ⟨.if_ line test.value yes.value [], y :: tail, by simp only [List.length_cons]; omega⟩
termination_by 8 * ts.length

/-- The rest of an `else` block, its body, and the word that ends it. -/
def readElse (ends : List String) (ts : Lexemes) : Tries (List Statement) ts :=
  match expect "end of block" isBlockEnd ts with
  | .error e => .error e
  | .ok close =>
    have := close.shorter
    match readBody ends close.rest with
    | .error e => .error e
    | .ok body =>
      have := body.bound
      have := (skip (endsBody ends) body.rest).bound
      .ok ⟨body.value, (skip (endsBody ends) body.rest).rest, by omega⟩
termination_by 8 * ts.length + 1

/-- A loop with its body and what stands in for an empty one. -/
def readFor (line : Nat) (ts : Lexemes) : Reads Statement ts :=
  match readTarget ts with
  | .error e => .error e
  | .ok target =>
    have := target.bound
    match expect "in" (isWord "in") target.rest with
    | .error e => .error e
    | .ok word =>
      have := word.shorter
      match readLevel orLevel word.rest with
      | .error e => .error e
      | .ok source =>
        have := source.shorter
        match readLoopFilter source.rest with
        | .error e => .error e
        | .ok filter =>
          have := filter.bound
          match expect "end of block" isBlockEnd filter.rest with
          | .error e => .error e
          | .ok close =>
            have := close.shorter
            match readBody ["endfor", "else"] close.rest with
            | .error e => .error e
            | .ok body =>
              have := body.bound
              match hbody : body.rest with
              | [] =>
                .ok ⟨.for_ line target.value source.value filter.value body.value [], [],
                  by rw [List.length_nil]; omega⟩
              | y :: tail =>
                have : body.rest.length = tail.length + 1 := by simp [hbody]
                if isWord "else" y then
                  match readElse ["endfor"] tail with
                  | .error e => .error e
                  | .ok otherwise =>
                    have := otherwise.bound
                    .ok ⟨.for_ line target.value source.value filter.value body.value otherwise.value,
                      otherwise.rest, by omega⟩
                else if isWord "endfor" y then
                  .ok ⟨.for_ line target.value source.value filter.value body.value [], tail, by omega⟩
                else
                  .ok ⟨.for_ line target.value source.value filter.value body.value [], y :: tail,
                    by simp only [List.length_cons]; omega⟩
termination_by 8 * ts.length

/-- A binding of a name to a value, or to what a body prints. -/
def readSet (line : Nat) (ts : Lexemes) : Reads Statement ts :=
  match readBoundName ts with
  | .error e => .error e
  | .ok n =>
    have := n.shorter
    match hrest : n.rest with
    | [] => .error (exhausted "assignment operator")
    | x :: rest =>
      have : rest.length < n.rest.length := by rw [hrest]; simp
      if isBlockEnd x then
        match readBody ["endset"] rest with
        | .error e => .error e
        | .ok body =>
          have := body.bound
          have := (skip (endsBody ["endset"]) body.rest).bound
          .ok ⟨.capture n.value body.value, (skip (endsBody ["endset"]) body.rest).rest, by omega⟩
      else if isMark "=" x then
        match readExpr rest with
        | .error e => .error e
        | .ok v => .ok ⟨.set line n.value v.value, v.rest, by have := v.shorter; omega⟩
      else .error (mismatch "assignment operator" x)
termination_by 8 * ts.length

end

/-- The statements of a template. -/
def parse (t : Text) : Except Fault (List Statement) := (readBody [] (tokens t)).map Passed.value

end TemplateDocs.Jinja
