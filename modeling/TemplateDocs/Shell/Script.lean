import TemplateDocs.Shell.Word

/-!
# Shell scripts

A script is a list of steps, each a pipeline of commands. A command is a list of words with
redirections, or a choice by pattern.
-/
namespace TemplateDocs.Shell

/-- When a step runs, given how the one before it ended. -/
inductive Condition where
  | always | onSuccess | onFailure
  deriving DecidableEq, Repr

structure Redirection where
  from_ : Nat
  /-- The channel to go to; none keeps nothing. -/
  target : Option Nat
  deriving DecidableEq, Repr

mutual

inductive Command where
  | simple (words : List Word) (redirections : List Redirection)
  | choose (subject : Word) (arms : List Arm)

inductive Arm where
  | mk (patterns : List Word) (body : List Step)

inductive Step where
  | mk (condition : Condition) (pipeline : List Command)

end

def isMark (m : String) : Token → Bool
  | .mark n => n = m.toList
  | _ => false

/-- A word that is a keyword when it stands unquoted. -/
def isKeyword (k : String) : Token → Bool
  | .word w => w = k.toList.map fun c => Piece.text [c] false
  | _ => false

/-- The words and redirections of a simple command. -/
def simpleParts : List Token → List Word × List Redirection × List Token
  | .word w :: rest =>
    let (words, redirections, left) := simpleParts rest
    (w :: words, redirections, left)
  | .redirect from_ target :: rest =>
    let (words, redirections, left) := simpleParts rest
    (words, ⟨from_, target⟩ :: redirections, left)
  | left => ([], [], left)

theorem simpleParts_length (ts : List Token) : (simpleParts ts).2.2.length ≤ ts.length := by
  fun_induction simpleParts ts with
  | case1 w rest words redirections left heq ih => rw [heq] at ih; exact Nat.le_succ_of_le ih
  | case2 a b rest words redirections left heq ih => rw [heq] at ih; exact Nat.le_succ_of_le ih
  | case3 => exact Nat.le_refl _

/-- The patterns of an arm up to its closing parenthesis. -/
def armPatterns? (ts : List Token) : Option (Taken (List Word) ts) :=
  match ts with
  | .word w :: t :: rest =>
    if isMark ")" t then some ⟨[w], rest, by simp only [List.length_cons]; omega⟩
    else if isMark "|" t then
      (armPatterns? rest).map fun r => ⟨w :: r.value, r.rest, by have := r.shorter; simp; omega⟩
    else none
  | _ => none

def skipNewlines (ts : List Token) : List Token := ts.dropWhile (isMark "\n")

theorem skipNewlines_length (ts : List Token) : (skipNewlines ts).length ≤ ts.length :=
  (List.dropWhile_suffix _).length_le

mutual

/-- Steps up to a token that ends them; nothing if a command cannot be read. -/
def steps? (condition : Condition) (ts : List Token) : Option (Passed (List Step) ts) :=
  match ts with
  | [] => some (.stay [])
  | t :: rest =>
    if isMark "\n" t || isMark ";" t then
      (steps? .always rest).map fun r => r.widen (Nat.le_succ _)
    else if isMark ";;" t || isMark ")" t || isKeyword "esac" t then some (.stay [])
    else
      match pipeline? (t :: rest) with
      | none => none
      | some first =>
        have : first.rest.length ≤ rest.length := Nat.le_of_lt_succ first.shorter
        match h : first.rest with
        | [] => some ⟨[.mk condition first.value], [], by simp⟩
        | m :: after =>
          have : first.rest.length = after.length + 1 := by simp [h]
          if isMark "&&" m then
            (steps? .onSuccess after).map fun r =>
              ⟨.mk condition first.value :: r.value, r.rest, by have := r.bound; simp; omega⟩
          else if isMark "||" m then
            (steps? .onFailure after).map fun r =>
              ⟨.mk condition first.value :: r.value, r.rest, by have := r.bound; simp; omega⟩
          else
            (steps? .always (m :: after)).map fun r =>
              ⟨.mk condition first.value :: r.value, r.rest, by
                have := r.bound; simp at *; omega⟩
termination_by 4 * ts.length + 3
decreasing_by all_goals (simp at *; try omega)

def pipeline? (ts : List Token) : Option (Taken (List Command) ts) :=
  match command? ts with
  | none => none
  | some first =>
    have := first.shorter
    match h : first.rest with
    | [] => some ⟨[first.value], [], by rw [List.length_nil]; omega⟩
    | m :: after =>
      have : first.rest.length = after.length + 1 := by simp [h]
      if isMark "|" m then
        (pipeline? after).map fun r =>
          ⟨first.value :: r.value, r.rest, by have := r.shorter; omega⟩
      else some ⟨[first.value], m :: after, by simp only [List.length_cons]; omega⟩
termination_by 4 * ts.length + 2
decreasing_by all_goals (simp at *; try omega)

def command? (ts : List Token) : Option (Taken Command ts) :=
  match ts with
  | [] => none
  | t :: rest =>
    if isKeyword "case" t then
      match rest with
      | .word subject :: in_ :: after =>
        if isKeyword "in" in_ then
          (arms? after).map fun r =>
            ⟨.choose subject r.value, r.rest, by have := r.shorter; simp; omega⟩
        else none
      | _ => none
    else
      let parts := simpleParts (t :: rest)
      if h : parts.2.2.length < (t :: rest).length then
        some ⟨.simple parts.1 parts.2.1, parts.2.2, h⟩
      else none
termination_by 4 * ts.length + 1
decreasing_by all_goals (simp at *; try omega)

/-- The arms of a choice up to its end. -/
def arms? (ts : List Token) : Option (Taken (List Arm) ts) :=
  have trimmed := skipNewlines_length ts
  match h : skipNewlines ts with
  | [] => none
  | t :: rest =>
    have : rest.length < ts.length := by rw [h] at trimmed; exact trimmed
    if isKeyword "esac" t then some ⟨[], rest, this⟩
    else
      let inner := if isMark "(" t then rest else t :: rest
      have hinner : inner.length ≤ ts.length := by
        simp only [inner]
        split
        · exact Nat.le_of_lt this
        · exact this
      match armPatterns? inner with
      | none => none
      | some patterns =>
        have := patterns.shorter
        match steps? .always patterns.rest with
        | none => none
        | some body =>
          have := body.bound
          match hb : body.rest with
          | [] => none
          | m :: after =>
            have : body.rest.length = after.length + 1 := by simp [hb]
            if isMark ";;" m then
              (arms? after).map fun r =>
                ⟨.mk patterns.value body.value :: r.value, r.rest, by
                  have := r.shorter; omega⟩
            else if isKeyword "esac" m then
              some ⟨[.mk patterns.value body.value], after, by omega⟩
            else none
termination_by 4 * ts.length
decreasing_by all_goals (simp at *; try omega)

end

/-- The steps of a whole script. -/
def parse? (script : Text) : Option (List Step) := do
  let ts ← tokens? script
  let r ← steps? .always ts
  if r.rest.isEmpty then return r.value else none

end TemplateDocs.Shell
