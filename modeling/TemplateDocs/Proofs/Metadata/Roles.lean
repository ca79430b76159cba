import Mathlib
import TemplateDocs.Proofs.Metadata.ParameterEntries
import TemplateDocs.Proofs.Metadata.Twins
import TemplateDocs.Proofs.Outline.Stopping

/-!
# What a changed line does to a value

A line that does not start an entry comes into a value in one of two roles: it starts an item of a list,
or it goes on with a value that started on a line before. In the second role a line that is changed
shows in the value, except perhaps in a collection in brackets or braces. In the first role it shows
unless the item was read as the very text that is now in quotes.
-/
namespace TemplateDocs.Outline

open Json (Value Fields)

/-- How a line comes into a value. -/
inductive Role where
  /-- It starts an item that is read as `v`. -/
  | item (v : Value)
  /-- It goes on with the value that starts with `text`. -/
  | inside (text : Text)

/-- The roles of the lines that a task takes, by the rules of reading. -/
inductive Plays : Task → List Line → Line → Role → Prop
  | block {parent : Option Nat} {ls rest : List Line} {line l : Line} {task : Task} {role : Role}
      (h : active ls = line :: rest) (ht : blockTask? line = some task)
      (hp : Plays task (line :: rest) l role) : Plays (.node parent) ls l role
  | nodeInside {parent : Option Nat} {ls rest seg left : List Line} {line l : Line} {v : Value}
      (h : active ls = line :: rest) (ht : blockTask? line = none)
      (hr : (readInline line.text line parent rest).map Read.parts = .ok (v, left))
      (hs : rest = seg ++ left) (hl : l ∈ seg) : Plays (.node parent) ls l (.inside line.text)
  | entry {indent : Nat} {acc : Fields} {ls rest : List Line} {line l : Line} {key after : Text}
      {role : Role} (h : active ls = line :: rest) (hi : line.indent = indent)
      (hk : splitKey? line.text = some (key, after))
      (hp : Plays (.entry (Text.trim after) line indent) rest l role) : Plays (.mapping indent acc) ls l role
  | laterEntry {indent : Nat} {acc : Fields} {ls rest mid : List Line} {line l : Line} {key after : Text}
      {v : Value} {role : Role} (h : active ls = line :: rest) (hi : line.indent = indent)
      (hk : splitKey? line.text = some (key, after))
      (hv : Reads (.entry (Text.trim after) line indent) rest v mid)
      (hp : Plays (.mapping indent (Fields.insert key v acc)) mid l role) :
      Plays (.mapping indent acc) ls l role
  | item {indent : Nat} {ls rest mid : List Line} {line : Line} {v : Value}
      (h : active ls = line :: rest) (hi : line.indent = indent)
      (ht : Line.isItemText line.text = true) (hv : Reads (.item line indent) rest v mid) :
      Plays (.sequence indent) ls line (.item v)
  | inItem {indent : Nat} {ls rest : List Line} {line l : Line} {role : Role}
      (h : active ls = line :: rest) (hi : line.indent = indent)
      (ht : Line.isItemText line.text = true) (hp : Plays (.item line indent) rest l role) :
      Plays (.sequence indent) ls l role
  | laterItem {indent : Nat} {ls rest mid : List Line} {line l : Line} {v : Value} {role : Role}
      (h : active ls = line :: rest) (hi : line.indent = indent)
      (ht : Line.isItemText line.text = true) (hv : Reads (.item line indent) rest v mid)
      (hp : Plays (.sequence indent) mid l role) : Plays (.sequence indent) ls l role
  | itemBelow {line next l : Line} {indent : Nat} {ls rest : List Line} {role : Role}
      (hc : isTrailingComment (itemContent line) = true) (h : active ls = next :: rest)
      (hi : indent < next.indent) (hp : Plays (.node (some indent)) ls l role) :
      Plays (.item line indent) ls l role
  | itemInline {line l : Line} {indent : Nat} {ls : List Line} {role : Role}
      (hc : isTrailingComment (itemContent line) = false)
      (hp : Plays (.node (some indent)) (itemLine line (itemContent line) :: ls) l role) :
      Plays (.item line indent) ls l role
  | entryBelow {text : Text} {line next l : Line} {indent : Nat} {ls rest : List Line} {role : Role}
      (hc : isTrailingComment text = true) (h : active ls = next :: rest) (hi : indent < next.indent)
      (hp : Plays (.node (some indent)) ls l role) : Plays (.entry text line indent) ls l role
  | entryList {text : Text} {line next l : Line} {indent : Nat} {ls rest : List Line} {role : Role}
      (hc : isTrailingComment text = true) (h : active ls = next :: rest) (hi : next.indent = indent)
      (ht : Line.isItemText next.text = true) (hp : Plays (.sequence indent) ls l role) :
      Plays (.entry text line indent) ls l role
  | entryInside {text : Text} {line l : Line} {indent : Nat} {ls seg left : List Line} {v : Value}
      (hc : isTrailingComment text = false)
      (hr : (readInline text line (some indent) ls).map Read.parts = .ok (v, left))
      (hs : ls = seg ++ left) (hl : l ∈ seg) : Plays (.entry text line indent) ls l (.inside text)

/-- Something holds of every line in its role. -/
def EveryRole (P : Line → Role → Prop) (task : Task) (ls : List Line) : Prop :=
  ∀ l role, Plays task ls l role → P l role

namespace EveryRole

variable {P : Line → Role → Prop} {ls rest mid : List Line} {line next : Line} {indent : Nat}
  {parent : Option Nat}

theorem of_active_nil (h : active ls = []) : EveryRole P (.node parent) ls := by
  intro l role hp
  cases hp with
  | block ha => simp [h] at ha
  | nodeInside ha => simp [h] at ha

theorem block_iff {task : Task} (h : active ls = line :: rest) (ht : blockTask? line = some task) :
    EveryRole P (.node parent) ls ↔ EveryRole P task (line :: rest) := by
  constructor
  · intro hall l role hp
    exact hall l role (.block h ht hp)
  · intro hall l role hp
    cases hp with
    | block ha ht' hp =>
      cases h.symm.trans ha
      cases ht.symm.trans ht'
      exact hall l role hp
    | nodeInside ha ht' =>
      cases h.symm.trans ha
      cases ht.symm.trans ht'

theorem inside_iff {seg left : List Line} {v : Value} (h : active ls = line :: rest)
    (ht : blockTask? line = none)
    (hr : (readInline line.text line parent rest).map Read.parts = .ok (v, left))
    (hs : rest = seg ++ left) :
    EveryRole P (.node parent) ls ↔ ∀ l ∈ seg, P l (.inside line.text) := by
  constructor
  · intro hall l hl
    exact hall l _ (.nodeInside h ht hr hs hl)
  · intro hall l role hp
    cases hp with
    | block ha ht' =>
      cases h.symm.trans ha
      cases ht.symm.trans ht'
    | nodeInside ha ht' hr' hs' hl =>
      cases h.symm.trans ha
      cases hr.symm.trans hr'
      exact hall l (List.append_cancel_right (hs.symm.trans hs') ▸ hl)

theorem of_mapping_end {acc : Fields} (h : ∀ line ∈ (active ls).head?, line.indent < indent) :
    EveryRole P (.mapping indent acc) ls := by
  intro l role hp
  cases hp with
  | entry ha hi => exact absurd hi (h _ (by rw [ha]; rfl)).ne
  | laterEntry ha hi => exact absurd hi (h _ (by rw [ha]; rfl)).ne

theorem mapping_iff {acc : Fields} {key after : Text} {v : Value} (h : active ls = line :: rest)
    (hi : line.indent = indent) (hk : splitKey? line.text = some (key, after))
    (hv : Reads (.entry (Text.trim after) line indent) rest v mid) :
    EveryRole P (.mapping indent acc) ls ↔
      EveryRole P (.entry (Text.trim after) line indent) rest ∧
        EveryRole P (.mapping indent (Fields.insert key v acc)) mid := by
  constructor
  · intro hall
    exact ⟨fun l role hp => hall l role (.entry h hi hk hp),
      fun l role hp => hall l role (.laterEntry h hi hk hv hp)⟩
  · rintro ⟨hentry, hlater⟩ l role hp
    cases hp with
    | entry ha _ hk' hp =>
      cases h.symm.trans ha
      cases hk.symm.trans hk'
      exact hentry l role hp
    | laterEntry ha _ hk' hv' hp =>
      cases h.symm.trans ha
      cases hk.symm.trans hk'
      obtain ⟨rfl, rfl⟩ := hv.unique hv'
      exact hlater l role hp

theorem of_sequence_end (h : ∀ line ∈ (active ls).head?,
    line.indent < indent ∨ (line.indent = indent ∧ Line.isItemText line.text = false)) :
    EveryRole P (.sequence indent) ls := by
  have hnone : ∀ {line rest}, active ls = line :: rest → line.indent = indent →
      Line.isItemText line.text = true → False := by
    intro line rest ha hi ht
    rcases h line (by rw [ha]; rfl) with hlt | ⟨-, hno⟩
    · exact absurd hi hlt.ne
    · simp [ht] at hno
  intro l role hp
  cases hp with
  | item ha hi ht => exact (hnone ha hi ht).elim
  | inItem ha hi ht => exact (hnone ha hi ht).elim
  | laterItem ha hi ht => exact (hnone ha hi ht).elim

theorem sequence_iff {v : Value} (h : active ls = line :: rest) (hi : line.indent = indent)
    (ht : Line.isItemText line.text = true) (hv : Reads (.item line indent) rest v mid) :
    EveryRole P (.sequence indent) ls ↔
      P line (.item v) ∧ EveryRole P (.item line indent) rest ∧ EveryRole P (.sequence indent) mid := by
  constructor
  · intro hall
    exact ⟨hall _ _ (.item h hi ht hv), fun l role hp => hall l role (.inItem h hi ht hp),
      fun l role hp => hall l role (.laterItem h hi ht hv hp)⟩
  · rintro ⟨hline, hitem, hlater⟩ l role hp
    cases hp with
    | item ha _ _ hv' =>
      cases h.symm.trans ha
      obtain ⟨rfl, -⟩ := hv.unique hv'
      exact hline
    | inItem ha _ _ hp =>
      cases h.symm.trans ha
      exact hitem l role hp
    | laterItem ha _ _ hv' hp =>
      cases h.symm.trans ha
      obtain ⟨rfl, rfl⟩ := hv.unique hv'
      exact hlater l role hp

theorem of_item_end (hc : isTrailingComment (itemContent line) = true)
    (h : ∀ next ∈ (active ls).head?, next.indent ≤ indent) : EveryRole P (.item line indent) ls := by
  intro l role hp
  cases hp with
  | itemBelow _ ha hi => exact absurd hi (h _ (by rw [ha]; rfl)).not_gt
  | itemInline hc' => simp [hc] at hc'

theorem item_below_iff (hc : isTrailingComment (itemContent line) = true) (h : active ls = next :: rest)
    (hi : indent < next.indent) :
    EveryRole P (.item line indent) ls ↔ EveryRole P (.node (some indent)) ls := by
  constructor
  · intro hall l role hp
    exact hall l role (.itemBelow hc h hi hp)
  · intro hall l role hp
    cases hp with
    | itemBelow _ _ _ hp => exact hall l role hp
    | itemInline hc' => simp [hc] at hc'

theorem item_inline_iff (hc : isTrailingComment (itemContent line) = false) :
    EveryRole P (.item line indent) ls ↔
      EveryRole P (.node (some indent)) (itemLine line (itemContent line) :: ls) := by
  constructor
  · intro hall l role hp
    exact hall l role (.itemInline hc hp)
  · intro hall l role hp
    cases hp with
    | itemBelow hc' => simp [hc] at hc'
    | itemInline _ hp => exact hall l role hp

theorem of_entry_end {text : Text} (hc : isTrailingComment text = true)
    (h : ∀ next ∈ (active ls).head?, next.indent ≤ indent ∧
      ¬ (next.indent = indent ∧ Line.isItemText next.text = true)) :
    EveryRole P (.entry text line indent) ls := by
  intro l role hp
  cases hp with
  | entryBelow _ ha hi => exact absurd hi (h _ (by rw [ha]; rfl)).1.not_gt
  | entryList _ ha hi ht => exact absurd ⟨hi, ht⟩ (h _ (by rw [ha]; rfl)).2
  | entryInside hc' => simp [hc] at hc'

theorem entry_below_iff {text : Text} (hc : isTrailingComment text = true) (h : active ls = next :: rest)
    (hi : indent < next.indent) :
    EveryRole P (.entry text line indent) ls ↔ EveryRole P (.node (some indent)) ls := by
  constructor
  · intro hall l role hp
    exact hall l role (.entryBelow hc h hi hp)
  · intro hall l role hp
    cases hp with
    | entryBelow _ _ _ hp => exact hall l role hp
    | entryList _ ha hi' =>
      cases h.symm.trans ha
      omega
    | entryInside hc' => simp [hc] at hc'

theorem entry_list_iff {text : Text} (hc : isTrailingComment text = true) (h : active ls = next :: rest)
    (hi : next.indent = indent) (ht : Line.isItemText next.text = true) :
    EveryRole P (.entry text line indent) ls ↔ EveryRole P (.sequence indent) ls := by
  constructor
  · intro hall l role hp
    exact hall l role (.entryList hc h hi ht hp)
  · intro hall l role hp
    cases hp with
    | entryBelow _ ha hi' =>
      cases h.symm.trans ha
      omega
    | entryList _ _ _ _ hp => exact hall l role hp
    | entryInside hc' => simp [hc] at hc'

theorem entry_inside_iff {text : Text} {seg left : List Line} {v : Value}
    (hc : isTrailingComment text = false)
    (hr : (readInline text line (some indent) ls).map Read.parts = .ok (v, left))
    (hs : ls = seg ++ left) :
    EveryRole P (.entry text line indent) ls ↔ ∀ l ∈ seg, P l (.inside text) := by
  constructor
  · intro hall l hl
    exact hall l _ (.entryInside hc hr hs hl)
  · intro hall l role hp
    cases hp with
    | entryBelow hc' => simp [hc] at hc'
    | entryList hc' => simp [hc] at hc'
    | entryInside _ hr' hs' hl =>
      cases hr.symm.trans hr'
      exact hall l (List.append_cancel_right (hs.symm.trans hs') ▸ hl)

end EveryRole

/-! ### Lines with a role -/

/-- The numbers of the lines that are taken until `left` is left. -/
def Taken (P : Nat → Prop) (ls left : List Line) : Prop :=
  ∀ seg, ls = seg ++ left → ∀ l ∈ seg, P l.number

namespace Taken

variable {P : Nat → Prop} {ls left rest mid : List Line} {line : Line}

theorem inner (h : Taken P ls left) (hrest : rest <:+ ls) (hmid : left <:+ mid) : Taken P rest mid := by
  obtain ⟨front, rfl⟩ := hrest
  obtain ⟨back, rfl⟩ := hmid
  rintro seg rfl l hl
  exact h (front ++ seg ++ back) (by simp) l (by simp [hl])

theorem cons (hline : P line.number) (h : Taken P rest left) : Taken P (line :: rest) left := by
  intro seg hs l hl
  cases seg with
  | nil => cases hl
  | cons first seg =>
    obtain ⟨rfl, hrest⟩ := List.cons.inj hs
    rcases List.mem_cons.mp hl with rfl | hl
    · exact hline
    · exact h seg hrest l hl

theorem first (h : Taken P ls left) (ha : active ls = line :: rest) (hs : left <:+ rest) :
    P line.number := by
  obtain ⟨back, rfl⟩ := hs
  have hactive : line :: (back ++ left) <:+ ls := ha ▸ active_suffix ls
  exact h.inner hactive (List.suffix_refl left) (line :: back) rfl line List.mem_cons_self

end Taken

/-- A line with a role has the number of a line that is taken, or of the line with the item itself. -/
theorem Reads.number_of_plays {P : Nat → Prop} {task : Task} {ls left : List Line} {v : Value}
    (h : Reads task ls v left) : (∀ line indent, task = .item line indent → P line.number) →
      Taken P ls left → EveryRole (fun l _ => P l.number) task ls := by
  have tail : ∀ {ls rest : List Line} {line : Line}, active ls = line :: rest → rest <:+ ls :=
    fun ha => (List.suffix_cons _ _).trans (ha ▸ active_suffix _)
  have refl : ∀ ls : List Line, ls <:+ ls := List.suffix_refl
  induction h with
  | nothing ha => exact fun _ _ => EveryRole.of_active_nil ha
  | @block parent ls rest left line task v ha ht hr ih =>
    intro _ htaken
    have hno : ∀ line' indent, task = .item line' indent → P line'.number := by
      rintro line' indent rfl
      exact (blockTask?_takes ht).elim
    exact (EveryRole.block_iff ha ht).mpr (ih hno (htaken.inner (ha ▸ active_suffix ls) (refl _)))
  | inline ha ht hr =>
    intro _ htaken
    obtain ⟨seg, hs⟩ := readInline_suffix hr
    exact (EveryRole.inside_iff ha ht hr hs.symm).mpr (htaken.inner (tail ha) (refl _) seg hs.symm)
  | mappingEnd hend => exact fun _ _ => EveryRole.of_mapping_end hend
  | mappingEntry ha hi hk _ hv hr ihv ihr =>
    intro _ htaken
    refine (EveryRole.mapping_iff ha hi hk hv).mpr ⟨?_, ?_⟩
    · exact ihv nofun (htaken.inner (tail ha) hr.suffix.1)
    · exact ihr nofun (htaken.inner (hv.suffix.1.trans (tail ha)) (refl _))
  | sequenceEnd hend => exact fun _ _ => EveryRole.of_sequence_end hend
  | @sequenceItem indent ls rest mid left line v vs ha hi ht hv hr ihv ihr =>
    intro _ htaken
    have hline : P line.number := htaken.first ha (hr.suffix.1.trans hv.suffix.1)
    refine (EveryRole.sequence_iff ha hi ht hv).mpr ⟨hline, ?_, ?_⟩
    · refine ihv ?_ (htaken.inner (tail ha) hr.suffix.1)
      rintro _ _ ⟨⟩
      exact hline
    · exact ihr nofun (htaken.inner (hv.suffix.1.trans (tail ha)) (refl _))
  | itemNull hc hend => exact fun _ _ => EveryRole.of_item_end hc hend
  | itemBelow hc ha hi _ ih =>
    exact fun _ htaken => (EveryRole.item_below_iff hc ha hi).mpr (ih nofun htaken)
  | @itemInline line indent ls left v hc _ ih =>
    intro hitem htaken
    exact (EveryRole.item_inline_iff hc).mpr (ih nofun (htaken.cons (hitem line indent rfl)))
  | entryNull hc hend => exact fun _ _ => EveryRole.of_entry_end hc hend
  | entryBelow hc ha hi _ ih =>
    exact fun _ htaken => (EveryRole.entry_below_iff hc ha hi).mpr (ih nofun htaken)
  | entryList hc ha hi ht _ ih =>
    exact fun _ htaken => (EveryRole.entry_list_iff hc ha hi ht).mpr (ih nofun htaken)
  | entryInline hc hr =>
    intro _ htaken
    obtain ⟨seg, hs⟩ := readInline_suffix hr
    exact (EveryRole.entry_inside_iff hc hr hs.symm).mpr (htaken seg hs.symm)

/-! ### Items read as texts -/

theorem deeperParts_of_next {indent : Nat} {ls : List Line}
    (h : ∀ next ∈ (active ls).head?, next.indent ≤ indent) :
    (deeperParts (some indent) ls).2 = active ls := by
  induction ls with
  | nil => rfl
  | cons l ls ih =>
    rw [deeperParts]
    cases hidle : l.isIdle with
    | true =>
      have hactive : active (l :: ls) = active ls := by simp [active, hidle]
      rw [hactive] at h ⊢
      exact ih h
    | false =>
      rw [active_cons hidle] at h ⊢
      have hindent : ¬ indent < l.indent := (h l rfl).not_gt
      simp [hindent]

theorem Reads.exists_array {indent : Nat} {ls left : List Line} {v : Value}
    (h : Reads (.sequence indent) ls v left) : ∃ vs, v = .array vs := by
  cases h with
  | sequenceEnd => exact ⟨[], rfl⟩
  | sequenceItem => exact ⟨_, rfl⟩

theorem Reads.ne_string_of_block {line : Line} {task : Task} {ls left : List Line} {s : Text}
    (ht : blockTask? line = some task) : ¬ Reads task ls (.string s) left := by
  intro h
  unfold blockTask? at ht
  split_ifs at ht <;> cases ht
  · obtain ⟨vs, hvs⟩ := h.exists_array
    cases hvs
  · obtain ⟨es, -, hes, -⟩ := h.listed
    cases hes

/-- A text that is neither quoted nor a block goes on over the deeper lines. -/
theorem readInline_string {c : Char} {t s : Text} {line : Line} {parent : Option Nat}
    {ls left : List Line} (hfree : Metadata.isProtected c = false)
    (h : (readInline (c :: t) line parent ls).map Read.parts = .ok (.string s, left)) :
    left = (deeperParts parent ls).2 := by
  simp only [Metadata.isProtected, Bool.or_eq_false_iff, decide_eq_false_iff_not] at hfree
  rw [readInline] at h
  split_ifs at h with hblock hquote hopening
  · simp [hfree] at hblock
  · simp [Flow.isQuote, hfree] at hquote
  · rw [readFlow_parts] at h
    obtain ⟨front, trailing, hg, hv, -⟩ := finish_ok h
    obtain ⟨more, hmore⟩ := gathered_complete hg
    obtain ⟨rest, rfl⟩ := Flow.collection?_cons hopening hmore
    exact absurd hv (Flow.read_ne_string hopening)
  · rw [Except.map, readPlain_parts, Except.ok.injEq, Prod.mk.injEq] at h
    exact h.2.symm

/-- An item that was read as a text, with no deeper line behind it, took no line with content. -/
theorem Requoted.item_string {line line' : Line} (hq : Requoted line line') {indent : Nat}
    {rest mid : List Line} {s : Text} (hv : Reads (.item line indent) rest (.string s) mid)
    (hnext : ∀ next ∈ (active rest).head?, next.indent ≤ indent) :
    active mid = active rest ∧ ∀ {P : Line → Role → Prop},
      (∀ l ∈ rest, l.isIdle = true → ∀ role, P l role) → EveryRole P (.item line indent) rest := by
  have hcontent := hq.itemContent_eq
  obtain ⟨c, t, hs⟩ := List.exists_cons_of_ne_nil hq.filled
  have hfree : Metadata.isProtected c = false := hq.free c (by simp [hs])
  have hcomment : isTrailingComment (itemContent line) = false := by
    simp [hcontent, hs, isTrailingComment, Metadata.isProtected] at hfree ⊢
    exact hfree.2
  cases hv with
  | itemBelow hc => simp [hcomment] at hc
  | itemInline _ hr =>
    have hactive := active_cons (itemLine_isIdle hcomment) rest
    cases hr with
    | block ha ht hr => exact absurd hr (Reads.ne_string_of_block ht)
    | inline ha ht hr =>
      cases hactive.symm.trans ha
      have htext : (itemLine line (itemContent line)).text = c :: t := hcontent.trans hs
      have hmid : mid = active rest := by
        rw [htext] at hr
        rw [readInline_string hfree hr, deeperParts_of_next hnext]
      subst hmid
      refine ⟨active_active rest, fun {P} hidle => ?_⟩
      have hsplit : rest.takeWhile Line.isIdle ++ active rest = rest := List.takeWhile_append_dropWhile
      rw [EveryRole.item_inline_iff hcomment, EveryRole.inside_iff ha ht hr hsplit.symm]
      exact fun l hl => hidle l ((List.takeWhile_prefix _).subset hl) (List.mem_takeWhile_imp hl) _

/-! ### Values of twins -/

/-- A line that is changed is an item that was read as the text it spells. -/
def Spelled (changed : Nat → Prop) (l : Line) (role : Role) : Prop :=
  changed l.number → role = .item (.string (spelling l))

/-- A line of a collection in brackets or braces is not changed. -/
def FlowStays (changed : Nat → Prop) (l : Line) : Role → Prop
  | .item _ => True
  | .inside text => opensFlow text = true → ¬ changed l.number

/-- The lines of a task are twins, from the next one with content on where the task starts there. -/
def Task.Twins (changed : Nat → Prop) : Task → List Line → List Line → Prop
  | .node _, ls, ls' | .mapping _ _, ls, ls' | .sequence _, ls, ls' =>
    List.Forall₂ (Twin changed) (active ls) (active ls')
  | .item line _, ls, ls' => ¬ changed line.number ∧ List.Forall₂ (Twin changed) ls ls'
  | .entry _ _ _, ls, ls' => List.Forall₂ (Twin changed) ls ls'

section Twins

variable {changed : Nat → Prop}

theorem Twin.eq_of_not_item {l l' : Line} (h : Twin changed l l') (hitem : Line.isItemText l.text = false) :
    l = l' ∧ ¬ changed l.number := by
  have hsame : ¬ changed l.number := fun hc => by simp [(h.quoted hc).item] at hitem
  exact ⟨h.same hsame, hsame⟩

theorem Twin.blockTask?_eq {l l' : Line} (h : Twin changed l l') : blockTask? l = blockTask? l' := by
  by_cases hc : changed l.number
  · have hitem := (h.quoted hc).item
    rw [blockTask?, blockTask?, ← h.alike.item, ← h.alike.indent, if_pos hitem, if_pos hitem]
  · rw [← h.same hc]

theorem isItemText_of_splitKey? {t : Text} (h : (splitKey? t).isSome = true) : Line.isItemText t = false := by
  by_contra hitem
  rw [Bool.not_eq_false] at hitem
  simp [splitKey?_of_isItemText hitem] at h

/-- Values over several lines agree exactly if no line in them is changed. -/
theorem readInline_twin {text : Text} {line : Line} {parent : Option Nat} {ls seg left ls' left' : List Line}
    {v v' : Value} (ht : List.Forall₂ (Twin changed) ls ls') (hs : ls = seg ++ left)
    (hr : (readInline text line parent ls).map Read.parts = .ok (v, left))
    (hr' : (readInline text line parent ls').map Read.parts = .ok (v', left'))
    (hflow : ∀ l ∈ seg, FlowStays changed l (.inside text)) :
    (v = v' ↔ ∀ l ∈ seg, Spelled changed l (.inside text)) ∧
      (v = v' → List.Forall₂ (Twin changed) (active left) (active left')) := by
  subst hs
  have hunchanged : v = v' → ∀ l ∈ seg, ¬ changed l.number := by
    rintro rfl
    cases hopens : opensFlow text with
    | true => exact fun l hl => hflow l hl hopens
    | false => exact unchanged_of_readInline ht hopens hr hr'
  refine ⟨⟨fun he l hl hc => absurd hc (hunchanged he l hl), fun hall => ?_⟩, fun he => ?_⟩
  · have hstays : ∀ l ∈ seg, ¬ changed l.number := by
      intro l hl hc
      cases hall l hl hc
    exact (readInline_of_unchanged ht hstays hr hr').1
  · exact active_twin (readInline_of_unchanged ht (hunchanged he) hr hr').2

/-- A key keeps the value that it was read with. -/
theorem Reads.get?_mapping {indent : Nat} {acc : Fields} {key : Text} {ls left : List Line} {v w : Value}
    (h : Reads (.mapping indent (Fields.insert key v acc)) ls w left) :
    ∃ fields, w = .object fields ∧ Fields.get? key fields = some v := by
  obtain ⟨es, -, rfl, -, hnew⟩ := h.listed
  have hkey : key ∉ es.map Entry.key := by
    intro hm
    obtain ⟨e, he, rfl⟩ := List.mem_map.mp hm
    have := hnew e he
    simp [Fields.has, Fields.get?_insert] at this
  refine ⟨_, rfl, ?_⟩
  rw [get?_fieldsFrom_of_not_mem hkey, Fields.get?_insert, if_pos rfl]

theorem head_twin {P : Line → Prop} (hP : ∀ l l', Alike l l' → (P l ↔ P l')) {a a' : List Line}
    (ht : List.Forall₂ (Twin changed) a a') : (∀ l ∈ a.head?, P l) ↔ ∀ l ∈ a'.head?, P l := by
  cases ht with
  | nil => rfl
  | @cons l l' _ _ hl _ => simpa using hP l l' hl.alike

theorem unchanged_of_idle {a a' : List Line} (ht : List.Forall₂ (Twin changed) a a') :
    ∀ l ∈ a, l.isIdle = true → ¬ changed l.number := by
  induction ht with
  | nil => simp
  | @cons l l' a a' hl _ ih =>
    intro m hm hidle hc
    rcases List.mem_cons.mp hm with rfl | hm
    · simp [(hl.quoted hc).isIdle_eq] at hidle
    · exact ih m hm hidle hc

theorem Reads.next_of_sequence {indent : Nat} {ls left : List Line} {v : Value}
    (h : Reads (.sequence indent) ls v left) : ∀ next ∈ (active ls).head?, next.indent ≤ indent := by
  cases h with
  | sequenceEnd hend =>
    intro next hnext
    rcases hend next hnext with hlt | ⟨he, -⟩
    · exact hlt.le
    · exact he.le
  | sequenceItem ha hi =>
    intro next hnext
    rw [ha] at hnext
    cases hnext
    exact hi.le

theorem Reads.of_block {parent : Option Nat} {ls rest left : List Line} {line : Line} {task : Task}
    {v : Value} (h : Reads (.node parent) ls v left) (ha : active ls = line :: rest)
    (ht : blockTask? line = some task) : Reads task (line :: rest) v left := by
  rw [reads_iff, Task.run_node, ha] at h
  simp only [ht] at h
  exact reads_iff.mpr h

theorem Reads.of_inline {parent : Option Nat} {ls rest left : List Line} {line : Line} {v : Value}
    (h : Reads (.node parent) ls v left) (ha : active ls = line :: rest) (ht : blockTask? line = none) :
    (readInline line.text line parent rest).map Read.parts = .ok (v, left) := by
  rw [reads_iff, Task.run_node, ha] at h
  simpa only [ht] using h

theorem Task.twins_of_blockTask? {line : Line} {task : Task} (h : blockTask? line = some task)
    {ls ls' : List Line} (ht : List.Forall₂ (Twin changed) ls ls') : task.Twins changed ls ls' := by
  unfold blockTask? at h
  split_ifs at h <;> cases h
  · exact active_twin ht
  · exact active_twin ht

/-- Of two readings of twins, with no line changed in a collection in brackets, the values agree exactly
if every line that is changed is an item that was read as the text it spells. Then what is left behind
them are twins. -/
theorem Reads.twin {task : Task} {ls left : List Line} {v : Value} (h : Reads task ls v left) :
    ∀ {ls' left' : List Line} {v' : Value}, task.Twins changed ls ls' → Reads task ls' v' left' →
      EveryRole (FlowStays changed) task ls →
      (v = v' ↔ EveryRole (Spelled changed) task ls) ∧
        (v = v' → List.Forall₂ (Twin changed) (active left) (active left')) := by
  induction h with
  | @nothing parent ls ha =>
    intro ls' left' v' ht h' _
    rw [Task.Twins, ha, List.forall₂_nil_left_iff] at ht
    have hnothing : Reads (.node parent) ls' .null [] := .nothing ht
    obtain ⟨rfl, rfl⟩ := hnothing.unique h'
    exact ⟨⟨fun _ => EveryRole.of_active_nil ha, fun _ => rfl⟩, fun _ => .nil⟩
  | @block parent ls rest left line task v ha htask hr ih =>
    intro ls' left' v' ht h' hflow
    rw [Task.Twins, ha] at ht
    obtain ⟨line', rest', hline, hrest, ha'⟩ := List.forall₂_cons_left_iff.mp ht
    have hr' := h'.of_block ha' (hline.blockTask?_eq ▸ htask)
    rw [EveryRole.block_iff ha htask] at hflow ⊢
    exact ih (Task.twins_of_blockTask? htask (.cons hline hrest)) hr' hflow
  | @inline parent ls rest left line v ha htask hr =>
    intro ls' left' v' ht h' hflow
    rw [Task.Twins, ha] at ht
    obtain ⟨line', rest', hline, hrest, ha'⟩ := List.forall₂_cons_left_iff.mp ht
    have hitem : Line.isItemText line.text = false := by
      unfold blockTask? at htask
      split_ifs at htask with hitem
      simpa using hitem
    obtain ⟨rfl, -⟩ := hline.eq_of_not_item hitem
    obtain ⟨seg, hs⟩ := readInline_suffix hr
    rw [EveryRole.inside_iff ha htask hr hs.symm] at hflow ⊢
    exact readInline_twin hrest hs.symm hr (h'.of_inline ha' htask) hflow
  | @mappingEnd indent acc ls hend =>
    intro ls' left' v' ht h' _
    have hend' := (head_twin (fun l l' hl => by rw [hl.indent]) ht).mp hend
    obtain ⟨rfl, rfl⟩ := (Reads.mappingEnd hend').unique h'
    refine ⟨⟨fun _ => EveryRole.of_mapping_end hend, fun _ => rfl⟩, fun _ => ?_⟩
    rw [active_active, active_active]
    exact ht
  | @mappingEntry indent acc ls rest mid left line key after v w ha hi hk hd hv hr ihv ihr =>
    intro ls' left' w' ht h' hflow
    rw [Task.Twins, ha] at ht
    obtain ⟨line', rest', hline, hrest, ha'⟩ := List.forall₂_cons_left_iff.mp ht
    obtain ⟨rfl, -⟩ := hline.eq_of_not_item (isItemText_of_splitKey? (by rw [hk]; rfl))
    rw [EveryRole.mapping_iff ha hi hk hv] at hflow ⊢
    cases h' with
    | mappingEnd hend => exact absurd hi (hend line (by rw [ha']; rfl)).ne
    | @mappingEntry _ _ _ _ mid' _ _ _ _ v' _ ha₁ _ hk₁ _ hv' hr' =>
      cases ha'.symm.trans ha₁
      cases hk.symm.trans hk₁
      obtain ⟨hiff, hmid⟩ := ihv hrest hv' hflow.1
      have hvalue : w = w' → v = v' := by
        rintro rfl
        obtain ⟨fields, rfl, hget⟩ := hr.get?_mapping
        obtain ⟨fields', he, hget'⟩ := hr'.get?_mapping
        cases he
        exact Option.some.inj (hget.symm.trans hget')
      by_cases he : v = v'
      · subst he
        obtain ⟨hiff', hleft⟩ := ihr (hmid rfl) hr' hflow.2
        exact ⟨hiff'.trans (and_iff_right (hiff.mp rfl)).symm, hleft⟩
      · refine ⟨⟨fun hw => absurd (hvalue hw) he, fun hall => absurd (hiff.mpr hall.1) he⟩, fun hw => ?_⟩
        exact absurd (hvalue hw) he
  | @sequenceEnd indent ls hend =>
    intro ls' left' v' ht h' _
    have hend' := (head_twin (fun l l' hl => by rw [hl.indent, hl.item]) ht).mp hend
    obtain ⟨rfl, rfl⟩ := (Reads.sequenceEnd hend').unique h'
    refine ⟨⟨fun _ => EveryRole.of_sequence_end hend, fun _ => rfl⟩, fun _ => ?_⟩
    rw [active_active, active_active]
    exact ht
  | @sequenceItem indent ls rest mid left line v vs ha hi hitem hv hr ihv ihr =>
    intro ls' left' w' ht h' hflow
    rw [Task.Twins, ha] at ht
    obtain ⟨line', rest', hline, hrest, ha'⟩ := List.forall₂_cons_left_iff.mp ht
    rw [EveryRole.sequence_iff ha hi hitem hv] at hflow ⊢
    cases h' with
    | sequenceEnd hend =>
      rcases hend line' (by rw [ha']; rfl) with hlt | ⟨-, hno⟩
      · exact absurd (hline.alike.indent ▸ hi) hlt.ne
      · simp [← hline.alike.item, hitem] at hno
    | @sequenceItem _ _ _ mid' _ _ v' vs' ha₁ hi' _ hv' hr' =>
      cases ha'.symm.trans ha₁
      -- the item itself: as it was, or in quotes
      obtain ⟨hiff, hmid⟩ : (v = v' ↔
          Spelled changed line (.item v) ∧ EveryRole (Spelled changed) (.item line indent) rest) ∧
          (v = v' → List.Forall₂ (Twin changed) (active mid) (active mid')) := by
        by_cases hc : changed line.number
        · have hq := hline.quoted hc
          obtain ⟨rfl, rfl⟩ := (Metadata.reads_item ⟨hi', hq.text⟩ rest').unique hv'
          have hnext := (head_twin (fun l l' hl => by rw [hl.indent]) (active_twin hrest)).mpr
            hr'.next_of_sequence
          have hidle := unchanged_of_idle hrest
          refine ⟨⟨?_, fun hall => ?_⟩, ?_⟩
          · rintro rfl
            exact ⟨fun _ => rfl, (hq.item_string hv hnext).2 fun l hl hi role hc =>
              absurd hc (hidle l hl hi)⟩
          · exact Role.item.inj (hall.1 hc)
          · rintro rfl
            rw [(hq.item_string hv hnext).1]
            exact active_twin hrest
        · obtain rfl := hline.same hc
          obtain ⟨hiff, hmid⟩ := ihv ⟨hc, hrest⟩ hv' hflow.2.1
          exact ⟨hiff.trans (and_iff_right fun h => absurd h hc).symm, hmid⟩
      rw [Value.array.injEq, List.cons.injEq, ← and_assoc, ← hiff]
      by_cases he : v = v'
      · obtain ⟨hiff', hleft⟩ := ihr (hmid he) hr' hflow.2.2
        rw [Value.array.injEq] at hiff' hleft
        exact ⟨and_congr_right' hiff', fun h => hleft h.2⟩
      · exact ⟨⟨fun h => absurd h.1 he, fun h => absurd h.1 he⟩, fun h => absurd h.1 he⟩
  | @itemNull line indent ls hc hend =>
    intro ls' left' v' ht h' _
    have hend' := (head_twin (fun l l' hl => by rw [hl.indent]) (active_twin ht.2)).mp hend
    obtain ⟨rfl, rfl⟩ := (Reads.itemNull hc hend').unique h'
    exact ⟨⟨fun _ => EveryRole.of_item_end hc hend, fun _ => rfl⟩, fun _ => active_twin ht.2⟩
  | @itemBelow line next indent ls rest left v hc ha hi hr ih =>
    intro ls' left' v' ht h' hflow
    rw [EveryRole.item_below_iff hc ha hi] at hflow ⊢
    cases h' with
    | itemNull _ hend =>
      have hle := (head_twin (fun l l' hl => by rw [hl.indent]) (active_twin ht.2)).mpr hend
      exact absurd hi (hle next (by rw [ha]; rfl)).not_gt
    | itemBelow _ _ _ hr' => exact ih (active_twin ht.2) hr' hflow
    | itemInline hc' => simp [hc] at hc'
  | @itemInline line indent ls left v hc hr ih =>
    intro ls' left' v' ht h' hflow
    have hline : Twin changed (itemLine line (itemContent line)) (itemLine line (itemContent line)) :=
      .refl ht.1
    rw [EveryRole.item_inline_iff hc] at hflow ⊢
    cases h' with
    | itemNull hc' => simp [hc] at hc'
    | itemBelow hc' => simp [hc] at hc'
    | itemInline _ hr' => exact ih (active_twin (.cons hline ht.2)) hr' hflow
  | @entryNull text line indent ls hc hend =>
    intro ls' left' v' ht h' _
    have hend' := (head_twin (fun l l' hl => by rw [hl.indent, hl.item]) (active_twin ht)).mp hend
    obtain ⟨rfl, rfl⟩ := (Reads.entryNull hc hend').unique h'
    exact ⟨⟨fun _ => EveryRole.of_entry_end hc hend, fun _ => rfl⟩, fun _ => active_twin ht⟩
  | @entryBelow text line next indent ls rest left v hc ha hi hr ih =>
    intro ls' left' v' ht h' hflow
    obtain ⟨next', rest', hnext, -, ha'⟩ := List.forall₂_cons_left_iff.mp (ha ▸ active_twin ht)
    rw [EveryRole.entry_below_iff hc ha hi] at hflow ⊢
    rw [hnext.alike.indent] at hi
    cases h' with
    | entryNull _ hend => exact absurd hi (hend next' (by rw [ha']; rfl)).1.not_gt
    | entryBelow _ _ _ hr' => exact ih (active_twin ht) hr' hflow
    | entryList _ ha₁ hi' =>
      cases ha'.symm.trans ha₁
      omega
    | entryInline hc' => simp [hc] at hc'
  | @entryList text line next indent ls rest left v hc ha hi hitem hr ih =>
    intro ls' left' v' ht h' hflow
    obtain ⟨next', rest', hnext, -, ha'⟩ := List.forall₂_cons_left_iff.mp (ha ▸ active_twin ht)
    rw [EveryRole.entry_list_iff hc ha hi hitem] at hflow ⊢
    rw [hnext.alike.indent] at hi
    rw [hnext.alike.item] at hitem
    cases h' with
    | entryNull _ hend => exact absurd ⟨hi, hitem⟩ (hend next' (by rw [ha']; rfl)).2
    | entryBelow _ ha₁ hi' =>
      cases ha'.symm.trans ha₁
      omega
    | entryList _ _ _ _ hr' => exact ih (active_twin ht) hr' hflow
    | entryInline hc' => simp [hc] at hc'
  | @entryInline text line indent ls left v hc hr =>
    intro ls' left' v' ht h' hflow
    obtain ⟨seg, hs⟩ := readInline_suffix hr
    rw [EveryRole.entry_inside_iff hc hr hs.symm] at hflow ⊢
    cases h' with
    | entryNull hc' => simp [hc] at hc'
    | entryBelow hc' => simp [hc] at hc'
    | entryList hc' => simp [hc] at hc'
    | entryInline _ hr' => exact readInline_twin ht hs.symm hr hr' hflow

end Twins

end TemplateDocs.Outline
