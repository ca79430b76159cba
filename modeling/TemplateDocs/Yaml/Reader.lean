import TemplateDocs.Text.Taken
import TemplateDocs.Yaml.Token

/-!
# Reading YAML

Tokens become a tree, and the tree becomes a JSON value. A plain scalar may be null, a boolean or a
number; a key is always text.
-/
namespace TemplateDocs.Yaml

open Json (Fields)

inductive Node where
  | scalar (tag : Option Text) (text : Text) (plain : Bool)
  | sequence (tag : Option Text) (items : List Node)
  | mapping (tag : Option Text) (keys values : List Node)

/-- Nothing, where a node could stand. -/
def Node.empty : Node := .scalar none [] true

/-- The nodes that have names. -/
abbrev Anchors := List (Text × Node)

def Anchors.get? (name : Text) : Anchors → Option Node
  | [] => none
  | (n, node) :: rest => if n = name then some node else get? name rest

/-- What a tag handle stands for. -/
abbrev Handles := List (Text × Text)

def defaultHandles : Handles :=
  [("!".toList, "!".toList), ("!!".toList, "tag:yaml.org,2002:".toList)]

def Handles.get? (handle : Text) : Handles → Option Text
  | [] => none
  | (h, start) :: rest => if h = handle then some start else get? handle rest

/-! ## Tokens to nodes -/

structure Properties where
  anchor : Option Text := none
  tag : Option Text := none

def tagText? (handles : Handles) (handle suffix : Text) : Option Text :=
  if handle.isEmpty then some suffix else (handles.get? handle).map (· ++ suffix)

/-- The anchor and tag at the front, in either order. -/
def properties? (handles : Handles) (ts : List Token) : Option (Passed Properties ts) :=
  match ts with
  | .anchor a :: .tag h s :: rest =>
    (tagText? handles h s).map fun t => ⟨⟨some a, some t⟩, rest, by simp only [List.length_cons]; omega⟩
  | .tag h s :: .anchor a :: rest =>
    (tagText? handles h s).map fun t => ⟨⟨some a, some t⟩, rest, by simp only [List.length_cons]; omega⟩
  | .anchor a :: rest => some ⟨⟨some a, none⟩, rest, Nat.le_succ _⟩
  | .tag h s :: rest => (tagText? handles h s).map fun t => ⟨⟨none, some t⟩, rest, Nat.le_succ _⟩
  | _ => some (.stay {})

/-- A tag that says nothing about a scalar. -/
def bareTag : Text := ['!']

def scalarNode (tag : Option Text) (t : Text) (plain : Bool) : Node :=
  .scalar (if tag = some bareTag then none else tag) t plain

/-- The anchors known inside a collection: its own name is not among them. -/
def Properties.inside (p : Properties) (anchors : Anchors) : Anchors :=
  anchors.filter fun a => some a.1 ≠ p.anchor

/-- A node with the anchors known after it. -/
structure Found where
  node : Node
  anchors : Anchors

def Properties.found (p : Properties) (node : Node) (anchors : Anchors) : Found :=
  match p.anchor with
  | some a => ⟨node, (a, node) :: anchors⟩
  | none => ⟨node, anchors⟩

structure FoundAll where
  nodes : List Node
  anchors : Anchors

structure FoundPairs where
  keys : List Node
  values : List Node
  anchors : Anchors

def isEmptyBefore (stops : List Token) (ts : List Token) : Bool := ts.head?.any stops.contains

mutual

/-- A node. In a block it may be an indented collection, and under a key also a sequence that is not
indented. -/
def node? (handles : Handles) (block indentless : Bool) (anchors : Anchors) (ts : List Token) :
    Option (Passed Found ts) :=
  match ts with
  | .alias name :: rest =>
    (anchors.get? name).map fun node => ⟨⟨node, anchors⟩, rest, Nat.le_succ _⟩
  | ts =>
    match properties? handles ts with
    | none => none
    | some p =>
      have := p.bound
      match hrest : p.rest with
      | .scalar t plain :: rest =>
        some ⟨p.value.found (scalarNode p.value.tag t plain) anchors, rest, by
          rw [hrest] at this; exact Nat.le_of_succ_le this⟩
      | .flowSequenceStart :: rest =>
        have : rest.length < ts.length := by rw [hrest] at this; exact this
        (flowItems? handles true (p.value.inside anchors) rest).map fun r =>
          ⟨p.value.found (.sequence p.value.tag r.value.nodes) r.value.anchors, r.rest, by
            have := r.bound; omega⟩
      | .flowMappingStart :: rest =>
        have : rest.length < ts.length := by rw [hrest] at this; exact this
        (flowPairs? handles true (p.value.inside anchors) rest).map fun r =>
          ⟨p.value.found (.mapping p.value.tag r.value.keys r.value.values) r.value.anchors,
            r.rest, by have := r.bound; omega⟩
      | .sequenceStart :: rest =>
        have : rest.length < ts.length := by rw [hrest] at this; exact this
        if block then
          (blockItems? handles (p.value.inside anchors) rest).map fun r =>
            ⟨p.value.found (.sequence p.value.tag r.value.nodes) r.value.anchors, r.rest, by
              have := r.bound; omega⟩
        else none
      | .mappingStart :: rest =>
        have : rest.length < ts.length := by rw [hrest] at this; exact this
        if block then
          (blockPairs? handles (p.value.inside anchors) rest).map fun r =>
            ⟨p.value.found (.mapping p.value.tag r.value.keys r.value.values) r.value.anchors,
              r.rest, by have := r.bound; omega⟩
        else none
      | .blockEntry :: rest =>
        have : rest.length < ts.length := by rw [hrest] at this; exact this
        if indentless then
          (entries? handles (p.value.inside anchors) (.blockEntry :: rest)).map fun r =>
            ⟨p.value.found (.sequence p.value.tag r.value.nodes) r.value.anchors, r.rest, by
              have := r.bound; simp at this; omega⟩
        else if p.value.anchor.isSome || p.value.tag.isSome then
          some ⟨p.value.found (.scalar p.value.tag [] true) anchors, .blockEntry :: rest, this⟩
        else none
      | rest =>
        if p.value.anchor.isSome || p.value.tag.isSome then
          some ⟨p.value.found (.scalar p.value.tag [] true) anchors, rest, by
            rw [hrest] at this; exact this⟩
        else none
termination_by 8 * ts.length + 2
decreasing_by all_goals grind

/-- A node that may be missing before the given tokens. -/
def optional? (handles : Handles) (block indentless : Bool) (stops : List Token)
    (anchors : Anchors) (ts : List Token) : Option (Passed Found ts) :=
  if isEmptyBefore stops ts then some (.stay ⟨.empty, anchors⟩)
  else node? handles block indentless anchors ts
termination_by 8 * ts.length + 3

/-- The items of an indented sequence. -/
def blockItems? (handles : Handles) (anchors : Anchors) (ts : List Token) :
    Option (Passed FoundAll ts) :=
  match ts with
  | .blockEnd :: rest => some ⟨⟨[], anchors⟩, rest, Nat.le_succ _⟩
  | .blockEntry :: rest =>
    match optional? handles true false [.blockEntry, .blockEnd] anchors rest with
    | none => none
    | some item =>
      have := item.bound
      (blockItems? handles item.value.anchors item.rest).map fun r =>
        ⟨⟨item.value.node :: r.value.nodes, r.value.anchors⟩, r.rest, by
          have := r.bound; simp; omega⟩
  | _ => none
termination_by 8 * ts.length
decreasing_by all_goals grind

/-- The items of a sequence that is not indented. -/
def entries? (handles : Handles) (anchors : Anchors) (ts : List Token) :
    Option (Passed FoundAll ts) :=
  match ts with
  | .blockEntry :: rest =>
    match optional? handles true false [.blockEntry, .key, .value, .blockEnd] anchors rest with
    | none => none
    | some item =>
      have := item.bound
      (entries? handles item.value.anchors item.rest).map fun r =>
        ⟨⟨item.value.node :: r.value.nodes, r.value.anchors⟩, r.rest, by
          have := r.bound; simp; omega⟩
  | ts => some ⟨⟨[], anchors⟩, ts, Nat.le_refl _⟩
termination_by 8 * ts.length
decreasing_by all_goals grind

/-- The pairs of an indented mapping. -/
def blockPairs? (handles : Handles) (anchors : Anchors) (ts : List Token) :
    Option (Passed FoundPairs ts) :=
  match ts with
  | .blockEnd :: rest => some ⟨⟨[], [], anchors⟩, rest, Nat.le_succ _⟩
  | .key :: rest =>
    match optional? handles true true [.key, .value, .blockEnd] anchors rest with
    | none => none
    | some k =>
      have := k.bound
      match hk : k.rest with
      | .value :: after =>
        have : k.rest.length = after.length + 1 := by simp [hk]
        match optional? handles true true [.key, .value, .blockEnd] k.value.anchors after with
        | none => none
        | some v =>
          have := v.bound
          (blockPairs? handles v.value.anchors v.rest).map fun r =>
            ⟨⟨k.value.node :: r.value.keys, v.value.node :: r.value.values, r.value.anchors⟩,
              r.rest, by have := r.bound; simp; omega⟩
      | after =>
        have : k.rest.length = after.length := by simp [hk]
        (blockPairs? handles k.value.anchors after).map fun r =>
          ⟨⟨k.value.node :: r.value.keys, .empty :: r.value.values, r.value.anchors⟩, r.rest, by
            have := r.bound; simp; omega⟩
  | _ => none
termination_by 8 * ts.length
decreasing_by all_goals grind

/-- The items of a sequence in brackets; after the first each follows a comma. -/
def flowItems? (handles : Handles) (first : Bool) (anchors : Anchors) (ts : List Token) :
    Option (Passed FoundAll ts) :=
  match ts with
  | .flowSequenceEnd :: rest => some ⟨⟨[], anchors⟩, rest, Nat.le_succ _⟩
  | .flowEntry :: rest =>
    if first then none
    else
      match rest with
      | .flowSequenceEnd :: after => some ⟨⟨[], anchors⟩, after, by simp only [List.length_cons]; omega⟩
      | rest => (flowItem? handles anchors rest).map fun r => r.widen (Nat.le_succ _)
  | ts => if first then flowItem? handles anchors ts else none
termination_by 8 * ts.length + 5
decreasing_by all_goals grind

/-- An item of a sequence in brackets and those after it; a single pair may stand without braces. -/
def flowItem? (handles : Handles) (anchors : Anchors) (ts : List Token) :
    Option (Passed FoundAll ts) :=
  match ts with
  | .key :: rest =>
    match optional? handles false false [.value, .flowEntry, .flowSequenceEnd] anchors rest with
    | none => none
    | some k =>
      have := k.bound
      match hk : k.rest with
      | .value :: after =>
        have : k.rest.length = after.length + 1 := by simp [hk]
        match optional? handles false false [.flowEntry, .flowSequenceEnd] k.value.anchors after with
        | none => none
        | some v =>
          have := v.bound
          (flowItems? handles false v.value.anchors v.rest).map fun r =>
            ⟨⟨.mapping none [k.value.node] [v.value.node] :: r.value.nodes, r.value.anchors⟩,
              r.rest, by have := r.bound; simp; omega⟩
      | after =>
        have : k.rest.length = after.length := by simp [hk]
        (flowItems? handles false k.value.anchors after).map fun r =>
          ⟨⟨.mapping none [k.value.node] [.empty] :: r.value.nodes, r.value.anchors⟩, r.rest, by
            have := r.bound; simp; omega⟩
  | ts =>
    match node? handles false false anchors ts with
    | none => none
    | some item =>
      if h : item.rest.length < ts.length then
        (flowItems? handles false item.value.anchors item.rest).map fun r =>
          ⟨⟨item.value.node :: r.value.nodes, r.value.anchors⟩, r.rest, by
            have := r.bound; omega⟩
      else none
termination_by 8 * ts.length + 4
decreasing_by all_goals grind

/-- The pairs of a mapping in braces. -/
def flowPairs? (handles : Handles) (first : Bool) (anchors : Anchors) (ts : List Token) :
    Option (Passed FoundPairs ts) :=
  match ts with
  | .flowMappingEnd :: rest => some ⟨⟨[], [], anchors⟩, rest, Nat.le_succ _⟩
  | .flowEntry :: rest =>
    if first then none
    else
      match rest with
      | .flowMappingEnd :: after => some ⟨⟨[], [], anchors⟩, after, by simp only [List.length_cons]; omega⟩
      | rest => (flowPair? handles anchors rest).map fun r => r.widen (Nat.le_succ _)
  | ts => if first then flowPair? handles anchors ts else none
termination_by 8 * ts.length + 5
decreasing_by all_goals grind

/-- A pair in braces and those after it; a key may stand alone. -/
def flowPair? (handles : Handles) (anchors : Anchors) (ts : List Token) :
    Option (Passed FoundPairs ts) :=
  match ts with
  | .key :: rest =>
    match optional? handles false false [.value, .flowEntry, .flowMappingEnd] anchors rest with
    | none => none
    | some k =>
      have := k.bound
      match hk : k.rest with
      | .value :: after =>
        have : k.rest.length = after.length + 1 := by simp [hk]
        match optional? handles false false [.flowEntry, .flowMappingEnd] k.value.anchors after with
        | none => none
        | some v =>
          have := v.bound
          (flowPairs? handles false v.value.anchors v.rest).map fun r =>
            ⟨⟨k.value.node :: r.value.keys, v.value.node :: r.value.values, r.value.anchors⟩,
              r.rest, by have := r.bound; simp; omega⟩
      | after =>
        have : k.rest.length = after.length := by simp [hk]
        (flowPairs? handles false k.value.anchors after).map fun r =>
          ⟨⟨k.value.node :: r.value.keys, .empty :: r.value.values, r.value.anchors⟩, r.rest, by
            have := r.bound; simp; omega⟩
  | ts =>
    match node? handles false false anchors ts with
    | none => none
    | some k =>
      if h : k.rest.length < ts.length then
        (flowPairs? handles false k.value.anchors k.rest).map fun r =>
          ⟨⟨k.value.node :: r.value.keys, .empty :: r.value.values, r.value.anchors⟩, r.rest, by
            have := r.bound; omega⟩
      else none
termination_by 8 * ts.length + 4
decreasing_by all_goals grind

end

/-! ## Documents -/

/-- The handles that directives define, and what follows them. Nothing is said twice. -/
def directives? (versioned : Bool) : Handles → List Token → Option (Handles × List Token)
  | handles, .versionDirective :: rest =>
    if versioned then none else directives? true handles rest
  | handles, .tagDirective handle start :: rest =>
    if (handles.get? handle).isSome then none
    else directives? versioned ((handle, start) :: handles) rest
  | handles, ts => some (handles, ts)

/-- Only ends of documents may be left. -/
def isDone (ts : List Token) : Bool := ts.all (· = .documentEnd)

/-- A node that is all there is. -/
def content? (handles : Handles) (ts : List Token) : Option Node :=
  (node? handles true false [] ts).bind fun r => if isDone r.rest then some r.value.node else none

/-- The single document of a text; an empty text has none. -/
def document? (ts : List Token) : Option Node :=
  match ts with
  | [] => some .empty
  | ts =>
    match directives? false [] ts with
    | none => none
    | some (handles, .documentStart :: rest) =>
      if isDone rest then some .empty else content? (handles ++ defaultHandles) rest
    | some (_, rest) => if rest.length ≠ ts.length then none else content? defaultHandles rest

/-! ## Nodes to values -/

/-- Zeros in front of further digits make a text. -/
def isPadded (t : Text) : Bool :=
  let digits :=
    match t with
    | '-' :: rest | '+' :: rest => rest
    | rest => rest
  match digits with
  | '0' :: d :: rest => (d :: rest).all Text.isDigit
  | _ => false

def isSigned (t : Text) : Bool := t.head? = some '+' || t.head? = some '-'

/-- The digits and their base after a sign was taken off. -/
def radixDigits? : Text → Option (Nat × Text)
  | '0' :: 'x' :: rest => some (16, rest)
  | '0' :: 'o' :: rest => some (8, rest)
  | '0' :: 'b' :: rest => some (2, rest)
  | _ => none

def natural? (t : Text) : Option Nat :=
  let body :=
    match t with
    | '+' :: rest => rest
    | rest => rest
  match radixDigits? body with
  | some (radix, digits) => if isSigned digits then none else Text.digits? radix digits
  | none => if isSigned body || isPadded t then none else Text.digits? 10 body

def negative? (t : Text) : Option Nat :=
  match t with
  | '-' :: body =>
    match radixDigits? body with
    | some (radix, digits) => Text.digits? radix digits
    | none => if isPadded t then none else Text.digits? 10 body
  | _ => none

/-- A whole number within 64 bits; one within 128 bits is refused, a longer one is none. -/
def integer? (t : Text) : Option (Option Json.Value) :=
  match natural? t, negative? t with
  | some n, _ =>
    if n < twoTo 64 then some (some (.number (.int n))) else if n < twoTo 128 then some none else none
  | none, some n =>
    if n ≤ twoTo 63 then some (some (.number (.int (-(n : Int)))))
    else if n ≤ twoTo 127 then some none
    else none
  | none, none => none

def float? (t : Text) : Option Float :=
  let body :=
    match t with
    | '+' :: rest => if isSigned rest then none else some rest
    | rest => some rest
  match body with
  | none => none
  | some body =>
    if [".inf", ".Inf", ".INF"].any fun w => body = w.toList then some (1 / 0)
    else if ["-.inf", "-.Inf", "-.INF"].any fun w => t = w.toList then some (-(1 / 0))
    else if [".nan", ".NaN", ".NAN"].any fun w => t = w.toList then some (0 / 0)
    else
      ((Decimal.parse? body).map Decimal.Written.toFloat).bind fun x =>
        if Decimal.isFinite x then some x else none

def isNull (t : Text) : Bool :=
  t.isEmpty || ["null", "Null", "NULL", "~"].any fun w => t = w.toList

def boolean? (t : Text) : Option Bool :=
  if ["true", "True", "TRUE"].any fun w => t = w.toList then some true
  else if ["false", "False", "FALSE"].any fun w => t = w.toList then some false
  else none

/-- A double; one that is not finite is null. -/
def floatValue (x : Float) : Json.Value :=
  match Json.Number.ofFloat? x with
  | some n => .number n
  | none => .null

/-- What a plain scalar means. -/
def resolve? (t : Text) : Option Json.Value :=
  if isNull t then some .null
  else
    match boolean? t with
    | some b => some (.bool b)
    | none =>
      match integer? t with
      | some v => v
      | none =>
        if isPadded t then some (.string t)
        else
          match float? t with
          | some x => some (floatValue x)
          | none => some (.string t)

def standardTag (name : String) : Text := "tag:yaml.org,2002:".toList ++ name.toList

/-- Tags of the document's own are refused. -/
def isLocalTag (tag : Option Text) : Bool := tag.any fun t => t.head? = some '!'

def scalarValue? (tag : Option Text) (t : Text) (plain : Bool) : Option Json.Value :=
  if isLocalTag tag then none
  else if tag = some (standardTag "bool") then (boolean? t).map .bool
  else if tag = some (standardTag "int") then (integer? t).join
  else if tag = some (standardTag "float") then (float? t).map floatValue
  else if tag = some (standardTag "null") then
    if !t.isEmpty && isNull t then some .null else none
  else if tag.isNone ∧ plain then resolve? t
  else some (.string t)

/-- The text of a key. -/
def keyText? : Node → Option Text
  | .scalar _ t _ => some t
  | _ => none

/-- Pairs in order; of equal keys the last counts. -/
def fieldsOf : List Text → List Json.Value → Fields → Fields
  | k :: ks, v :: vs, fields => fieldsOf ks vs (fields.insert k v)
  | _, _, fields => fields

mutual

def Node.toJson? : Node → Option Json.Value
  | .scalar tag t plain => scalarValue? tag t plain
  | .sequence tag items => if isLocalTag tag then none else (itemsToJson? items).map .array
  | .mapping tag keys values =>
    if isLocalTag tag then none
    else do
      let vs ← itemsToJson? values
      let ks ← keys.mapM keyText?
      return .object (fieldsOf ks vs [])

def itemsToJson? : List Node → Option (List Json.Value)
  | [] => some []
  | n :: rest => do
    let v ← n.toJson?
    return v :: (← itemsToJson? rest)

end

/-- The value of a document. -/
def parse? (t : Text) : Option Json.Value := do
  let ts ← tokens? t
  let node ← document? ts
  node.toJson?

end TemplateDocs.Yaml
