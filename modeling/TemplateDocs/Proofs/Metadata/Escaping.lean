import Mathlib
import TemplateDocs.Proofs.Metadata.Roles

/-!
# What escaping leaves alone

The annotation and its escaped text are read as two documents whose lines correspond one to one. An
entry that starts on the same line in both has the same value in both if none of its lines is rewritten.
If one is, its role decides: a line of a text changes the text, and an item of a list is changed unless
it was read as the text that it spells.
-/
namespace TemplateDocs

namespace Outline

/-- The line of an entry decides its key, its column and what follows the key. -/
theorem Entry.StandsIn.same_head {e e' : Entry} {i i' : Nat} {ls ls' mid mid' : List Line}
    {after after' : Text} (h : e.StandsIn i ls mid after) (h' : e'.StandsIn i' ls' mid' after')
    (hhead : e.head = e'.head) : e.key = e'.key ∧ after = after' ∧ i = i' := by
  have hsplit : some (e.key, after) = some (e'.key, after') := by
    rw [← h.key, ← h'.key, hhead]
  obtain ⟨hkey, hafter⟩ := Prod.mk.inj (Option.some.inj hsplit)
  exact ⟨hkey, hafter, by rw [← h.column, ← h'.column, hhead]⟩

/-- The roles of the lines of an entry. -/
def Entry.Plays (e : Entry) (ls : List Line) (l : Line) (role : Role) : Prop :=
  ∃ after mid, splitKey? e.head.text = some (e.key, after) ∧ e.head :: (e.body ++ mid) <:+ ls ∧
    Outline.Plays (.entry (Text.trim after) e.head e.head.indent) (e.body ++ mid) l role

theorem Entry.StandsIn.plays_iff {n : Nat} {raws : Lines} {e : Entry} {i : Nat} {mid : List Line}
    {after : Text} (h : e.StandsIn i (Line.numbered n raws) mid after) {l : Line} {role : Role} :
    e.Plays (Line.numbered n raws) l role ↔
      Outline.Plays (.entry (Text.trim after) e.head i) (e.body ++ mid) l role := by
  constructor
  · rintro ⟨after', mid', hkey, hlines, hp⟩
    rw [h.key] at hkey
    cases hkey
    have hrest := Line.eq_of_suffix h.lines hlines rfl
    rw [(List.cons.inj hrest).2, ← h.column]
    exact hp
  · intro hp
    exact ⟨after, mid, h.key, h.lines, h.column ▸ hp⟩

theorem Entry.StandsIn.number_of_plays {n : Nat} {raws : Lines} {e : Entry} {i : Nat} {mid : List Line}
    {after : Text} (h : e.StandsIn i (Line.numbered n raws) mid after) {l : Line} {role : Role}
    (hp : e.Plays (Line.numbered n raws) l role) : ∃ m ∈ e.body, m.number = l.number := by
  have htaken : Taken (fun number => ∃ m ∈ e.body, m.number = number) (e.body ++ mid) mid := by
    intro seg hs m hm
    exact ⟨m, List.append_cancel_right hs ▸ hm, rfl⟩
  exact h.value.number_of_plays nofun htaken l role (h.plays_iff.mp hp)

/-- Entries that start on the same line agree exactly if every line of the first that is changed is an
item that was read as the text it spells. -/
theorem Entry.StandsIn.value_eq_iff {n : Nat} {raws raws' : Lines} {e e' : Entry} {i i' : Nat}
    {mid mid' : List Line} {after after' : Text} {changed : Nat → Prop}
    (h : e.StandsIn i (Line.numbered n raws) mid after)
    (ht : List.Forall₂ (Twin changed) (Line.numbered n raws) (Line.numbered n raws'))
    (h' : e'.StandsIn i' (Line.numbered n raws') mid' after') (hhead : e.head = e'.head)
    (hflow : ∀ l role, e.Plays (Line.numbered n raws) l role → FlowStays changed l role) :
    e.value = e'.value ↔ ∀ l role, e.Plays (Line.numbered n raws) l role → Spelled changed l role := by
  obtain ⟨-, rfl, rfl⟩ := h.same_head h' hhead
  simp only [h.plays_iff] at hflow ⊢
  have hbodies := suffix_twin ht h.lines h'.lines (congrArg Line.number hhead)
  exact (h.value.twin hbodies (hhead ▸ h'.value) hflow).1

/-- The value of the entry is a literal or folded block. -/
def Entry.IsBlock (e : Entry) : Prop :=
  ∃ after c, splitKey? e.head.text = some (e.key, after) ∧ (Text.trim after).head? = some c ∧
    (c = '|' ∨ c = '>')

/-- In a literal or folded block every line goes on with the text. -/
theorem Entry.StandsIn.plays_of_isBlock {n : Nat} {raws : Lines} {e : Entry} {i : Nat} {mid : List Line}
    {after : Text} (h : e.StandsIn i (Line.numbered n raws) mid after) (hb : e.IsBlock)
    {P : Line → Role → Prop} : (∀ l role, e.Plays (Line.numbered n raws) l role → P l role) ↔
      ∀ l ∈ e.body, P l (.inside (Text.trim after)) := by
  obtain ⟨after', c, hk, hhead, hc⟩ := hb
  rw [h.key] at hk
  cases hk
  obtain ⟨t, ht⟩ : ∃ t, Text.trim after = c :: t := List.head?_eq_some_iff.mp hhead
  have hcomment : isTrailingComment (Text.trim after) = false := by
    rw [ht]
    rcases hc with rfl | rfl <;> simp [isTrailingComment]
  have hrun := h.value.run
  rw [Task.run_entry, hcomment, if_neg (by simp)] at hrun
  simp only [h.plays_iff]
  exact EveryRole.entry_inside_iff hcomment hrun rfl

theorem Entry.IsBlock.opensFlow {e : Entry} (h : e.IsBlock) {after : Text}
    (hk : splitKey? e.head.text = some (e.key, after)) : opensFlow (Text.trim after) = false := by
  obtain ⟨after', c, hk', hhead, hc⟩ := h
  rw [hk] at hk'
  cases hk'
  rw [Outline.opensFlow, hhead]
  rcases hc with rfl | rfl <;> rfl

end Outline

namespace Metadata

open Json (Fields)
open Outline (Line Entry Role Listed AsCut Rewritten FlowStays Spelled document entries opensFlow
  rewritten_iff spelling)
open Text (trim)

theorem blockMapping_of_read {n : Nat} {t : Text} {fields : Fields}
    (h : Outline.read t n = .ok (.object fields)) (hne : entries (document n t) ≠ []) :
    Outline.BlockMapping (document n t) fields :=
  (Outline.blockMapping_of_readLines h).resolve_left hne

/-- How escaping changes the value of a top-level key. -/
inductive Changed (n : Nat) (t key : Text) : Prop
  /-- A line of the key's own entry is rewritten, and is no item that was read as the text it spells. -/
  | rewritten {e : Entry} {l : Line} {role : Role} (he : e ∈ entries (document n t)) (hk : e.key = key)
      (hp : e.Plays (document n t) l role) (hr : Rewritten n t l.number)
      (hs : role ≠ .item (.string (spelling l)))
  /-- The key has an entry before escaping only. -/
  | lost (hk : key ∈ (entries (document n t)).map Entry.key)
      (hk' : key ∉ (entries (document n (escapeParameterLists t))).map Entry.key)
  /-- The key has an entry after escaping only. -/
  | gained (hk : key ∉ (entries (document n t)).map Entry.key)
      (hk' : key ∈ (entries (document n (escapeParameterLists t))).map Entry.key)

/-- Where it takes more than the lines to tell whether the value of a top-level key changes. -/
inductive Unsettled (n : Nat) (t key : Text) : Prop
  /-- A line inside a collection in brackets is rewritten. -/
  | flow {e : Entry} {l : Line} {text : Text} (he : e ∈ entries (document n t)) (hk : e.key = key)
      (hh : e.head ∈ (entries (document n (escapeParameterLists t))).map Entry.head)
      (hp : e.Plays (document n t) l (.inside text)) (ho : opensFlow text = true)
      (hr : Rewritten n t l.number)
  /-- The key has its entry on another line. -/
  | moved {e e' : Entry} (he : e ∈ entries (document n t))
      (he' : e' ∈ entries (document n (escapeParameterLists t))) (hk : e.key = key)
      (hk' : e'.key = key) (hh : e.head ≠ e'.head)
  /-- A document in braces has a rewritten line. -/
  | braces (h : entries (document n t) = [] ∨ entries (document n (escapeParameterLists t)) = [])
      (hne : document n t ≠ document n (escapeParameterLists t))

section Keys

variable {n : Nat} {t : Text} {fields fields' : Fields}
  (h : Outline.read t n = .ok (.object fields))
  (h' : Outline.read (escapeParameterLists t) n = .ok (.object fields'))

include h h'

/-- An entry with no rewritten line in a collection in brackets keeps its value exactly if each rewritten
line in it is an item that was read as the text it spells. -/
theorem get?_eq_iff_spelled {e : Entry} (he : e ∈ entries (document n t))
    (hhead : e.head ∈ (entries (document n (escapeParameterLists t))).map Entry.head)
    (hflow : ∀ l role, e.Plays (document n t) l role → FlowStays (Rewritten n t) l role) :
    Fields.get? e.key fields = Fields.get? e.key fields' ↔
      ∀ l role, e.Plays (document n t) l role → Spelled (Rewritten n t) l role := by
  obtain ⟨e', he', hhead⟩ := List.mem_map.mp hhead
  have hb := blockMapping_of_read h (List.ne_nil_of_mem he)
  have hb' := blockMapping_of_read h' (List.ne_nil_of_mem he')
  obtain ⟨i, mid, after, hs⟩ := hb.standsIn he
  obtain ⟨i', mid', after', hs'⟩ := hb'.standsIn he'
  rw [hb.get?_of_mem he, (hs.same_head hs' hhead.symm).1, hb'.get?_of_mem he', Option.some.injEq]
  exact hs.value_eq_iff (Outline.document_twin n t) hs' hhead.symm hflow

/-- A block of text keeps its value exactly if none of its lines is rewritten. -/
theorem get?_eq_iff_of_block {e : Entry} (he : e ∈ entries (document n t)) (hblock : e.IsBlock)
    (hhead : e.head ∈ (entries (document n (escapeParameterLists t))).map Entry.head) :
    Fields.get? e.key fields = Fields.get? e.key fields' ↔
      ∀ l ∈ e.body, l ∈ document n (escapeParameterLists t) := by
  have hb := blockMapping_of_read h (List.ne_nil_of_mem he)
  obtain ⟨i, mid, after, hs⟩ := hb.standsIn he
  have hmem : ∀ l ∈ e.body, l ∈ document n t := fun l hl => hs.lines.subset (by simp [hl])
  have hopens := hblock.opensFlow hs.key
  have hflow : ∀ l ∈ e.body, FlowStays (Rewritten n t) l (.inside (trim after)) := by
    intro l _ hopen
    simp [hopens] at hopen
  refine (get?_eq_iff_spelled h h' he hhead ((hs.plays_of_isBlock hblock).mpr hflow)).trans ?_
  refine (hs.plays_of_isBlock hblock).trans (forall₂_congr fun l hl => ?_)
  rw [← not_not (a := l ∈ document n (escapeParameterLists t)), ← rewritten_iff (hmem l hl)]
  simp [Spelled]

/-- Where the lines tell, a key keeps its value exactly if it is not changed in one of the ways of
`Changed`. -/
theorem get?_eq_iff_not_changed {key : Text} (hsettled : ¬ Unsettled n t key) :
    Fields.get? key fields = Fields.get? key fields' ↔ ¬ Changed n t key := by
  by_cases hsame : document n t = document n (escapeParameterLists t)
  · have heq : Outline.read t n = Outline.read (escapeParameterLists t) n :=
      congrArg Outline.readLines hsame
    rw [h, h'] at heq
    cases heq
    refine iff_of_true rfl fun hc => ?_
    cases hc with
    | rewritten _ _ _ hr =>
      obtain ⟨l, hl, -, hno⟩ := hr
      exact hno (hsame ▸ hl)
    | lost hk hk' => exact hk' (hsame ▸ hk)
    | gained hk hk' => exact hk (hsame ▸ hk')
  have hne : entries (document n t) ≠ [] := fun hnil => hsettled (.braces (.inl hnil) hsame)
  have hne' : entries (document n (escapeParameterLists t)) ≠ [] :=
    fun hnil => hsettled (.braces (.inr hnil) hsame)
  have hb := blockMapping_of_read h hne
  have hb' := blockMapping_of_read h' hne'
  by_cases hk : key ∈ (entries (document n t)).map Entry.key <;>
    by_cases hk' : key ∈ (entries (document n (escapeParameterLists t))).map Entry.key
  · obtain ⟨e, he, rfl⟩ := List.mem_map.mp hk
    obtain ⟨e', he', hkey⟩ := List.mem_map.mp hk'
    have hhead : e.head ∈ (entries (document n (escapeParameterLists t))).map Entry.head := by
      by_contra hno
      exact hsettled (.moved he he' rfl hkey fun heq => hno (heq ▸ List.mem_map_of_mem he'))
    have hflow : ∀ l role, e.Plays (document n t) l role → FlowStays (Rewritten n t) l role := by
      rintro l (_ | text) hp
      · trivial
      · exact fun ho hr => hsettled (.flow he rfl hhead hp ho hr)
    rw [get?_eq_iff_spelled h h' he hhead hflow]
    constructor
    · intro hall hc
      cases hc with
      | rewritten he₁ hk₁ hp hr hs =>
        obtain rfl := List.inj_on_of_nodup_map hb.keys he₁ he hk₁
        exact hs (hall _ _ hp hr)
      | lost _ hno => exact hno hk'
      | gained hno _ => exact hno hk
    · intro hc l role hp hr
      by_contra hs
      exact hc (.rewritten he rfl hp hr hs)
  · obtain ⟨e, he, rfl⟩ := List.mem_map.mp hk
    rw [hb.get?_of_mem he, hb'.get?_of_not_mem hk']
    exact iff_of_false (by simp) (not_not_intro (.lost hk hk'))
  · obtain ⟨e', he', rfl⟩ := List.mem_map.mp hk'
    rw [hb.get?_of_not_mem hk, hb'.get?_of_mem he']
    exact iff_of_false (by simp) (not_not_intro (.gained hk hk'))
  · rw [hb.get?_of_not_mem hk, hb'.get?_of_not_mem hk']
    refine iff_of_true rfl fun hc => ?_
    cases hc with
    | rewritten he₁ hk₁ => exact hk (List.mem_map.mpr ⟨_, he₁, hk₁⟩)
    | lost hyes _ => exact hk hyes
    | gained _ hyes => exact hk' hyes

/-- With the same lines as heads of entries, a key whose lines all stay keeps its value. -/
theorem get?_eq_of_body {key : Text} (hne : entries (document n t) ≠ [])
    (hheads : (entries (document n t)).map Entry.head =
      (entries (document n (escapeParameterLists t))).map Entry.head)
    (hbody : ∀ e ∈ entries (document n t), e.key = key →
      ∀ l ∈ e.body, l ∈ document n (escapeParameterLists t)) :
    Fields.get? key fields = Fields.get? key fields' := by
  have hne' : entries (document n (escapeParameterLists t)) ≠ [] := by
    intro hnil
    rw [hnil, List.map_nil, List.map_eq_nil_iff] at hheads
    exact hne hheads
  have hb := blockMapping_of_read h hne
  have hb' := blockMapping_of_read h' hne'
  by_cases hk : key ∈ (entries (document n t)).map Entry.key
  · obtain ⟨e, he, rfl⟩ := List.mem_map.mp hk
    obtain ⟨i, mid, after, hs⟩ := hb.standsIn he
    have hstays : ∀ l role, e.Plays (document n t) l role → ¬ Rewritten n t l.number := by
      intro l role hp
      obtain ⟨m, hm, hnumber⟩ := hs.number_of_plays hp
      rw [← hnumber, rewritten_iff (hs.lines.subset (by simp [hm]))]
      exact not_not_intro (hbody e he rfl m hm)
    refine (get?_eq_iff_spelled h h' he (hheads ▸ List.mem_map_of_mem he) ?_).mpr ?_
    · rintro l (_ | text) hp
      · trivial
      · exact fun _ => hstays l _ hp
    · exact fun l role hp hr => absurd hr (hstays l role hp)
  · have hk' : key ∉ (entries (document n (escapeParameterLists t))).map Entry.key := by
      intro hmem
      obtain ⟨e', he', rfl⟩ := List.mem_map.mp hmem
      obtain ⟨e, he, hhead⟩ := List.mem_map.mp (hheads ▸ List.mem_map_of_mem he')
      obtain ⟨i, mid, after, hs⟩ := hb.standsIn he
      obtain ⟨i', mid', after', hs'⟩ := hb'.standsIn he'
      exact hk (List.mem_map.mpr ⟨e, he, (hs.same_head hs' hhead).1⟩)
    rw [hb.get?_of_not_mem hk, hb'.get?_of_not_mem hk']

end Keys

/-! ### Where lines are rewritten -/

/-- Quoting on numbered lines. -/
def quoteLines : Option Nat → List Line → List Line
  | _, [] => []
  | list, l :: ls => Line.of l.number (quoteLine list l.raw) :: quoteLines (openAfter list l.raw) ls

theorem numbered_quoteItems (list : Option Nat) (n : Nat) (raws : Lines) :
    Line.numbered n (quoteItems list raws) = quoteLines list (Line.numbered n raws) := by
  induction raws generalizing list n with
  | nil => rfl
  | cons raw rest ih =>
    rw [quoteItems_cons, Line.numbered, Line.numbered, quoteLines, ih]
    rfl

theorem opensParameters_of_isIdle {l : Line} (h : l.isIdle = true) :
    opensParameters l.text = false := by
  unfold Line.isIdle at h
  cases ht : l.text with
  | nil => rfl
  | cons c t =>
    have hc : c = '#' := by simpa [ht] using h
    subst hc
    rfl

/-- A line that opens a parameter list and starts an entry has one of the two keys. -/
theorem mem_parameterKeys_of_opens {t key after : Text} (ht : Text.Tight t)
    (ho : opensParameters t = true) (hk : Outline.splitKey? t = some (key, after)) :
    key ∈ parameterKeys := by
  obtain ⟨k, hmem, hopens⟩ := List.any_eq_true.mp ho
  cases hafter : Text.after? (k ++ [':']) t with
  | none => simp [hafter] at hopens
  | some rest =>
    simp only [hafter] at hopens
    rw [Text.after?_eq_some_iff] at hafter
    subst hafter
    have hnil := Text.eq_nil_of_tight_append ht (List.all_eq_true.mp hopens)
    rw [hnil, List.append_nil, splitKey?_parameterKey k hmem] at hk
    cases hk
    exact hmem

/-- No list is open, or one at `indent`. -/
def OpenAt (indent : Nat) (list : Option Nat) : Prop := list = none ∨ list = some indent

theorem OpenAt.openAfter {i : Nat} {list : Option Nat} (h : OpenAt i list) {line : Text}
    (ho : opensParameters (trim line) = true → Lines.indent line = i) :
    OpenAt i (openAfter list line) := by
  unfold Metadata.openAfter
  split_ifs with hin hopens
  · exact h
  · exact .inr (by rw [ho hopens])
  · exact .inl rfl

/-- The line of another key closes the list that was open and opens none. -/
theorem openAfter_of_other_key {i : Nat} {list : Option Nat} {line key after : Text}
    (hlist : OpenAt i list) (hindent : Lines.indent line = i)
    (hk : Outline.splitKey? (trim line) = some (key, after)) (hkey : key ∉ parameterKeys) :
    Metadata.openAfter list line = none := by
  have hopens : opensParameters (trim line) = false := by
    by_contra hopens
    rw [Bool.not_eq_false] at hopens
    exact hkey (mem_parameterKeys_of_opens (Text.trim_tight _) hopens hk)
  have hitem : isItem (trim line) = false := by
    by_contra hitem
    rw [Bool.not_eq_false] at hitem
    simp [Outline.splitKey?_of_isItemText (isItemText_of_isItem hitem)] at hk
  have hblank : Lines.isBlank line = false := by
    by_contra hblank
    rw [Bool.not_eq_false, Lines.isBlank_iff_trim] at hblank
    simp [hblank, Outline.splitKey?] at hk
  rcases hlist with rfl | rfl
  · simp [Metadata.openAfter, isInside, hopens]
  · simp [Metadata.openAfter, isInside, hopens, hitem, hblank, hindent]

/-- Without an open list and a line that opens one, all lines stay. -/
theorem quoteLines_none {a : List Line} (hcut : AsCut a) (ho : ∀ l ∈ a, opensParameters l.text = false)
    (b : List Line) : quoteLines none (a ++ b) = a ++ quoteLines none b := by
  induction a with
  | nil => rfl
  | cons l a ih =>
    have hl : l ∈ l :: a := List.mem_cons_self
    have hopens : opensParameters (trim l.raw) = false := hcut.text hl ▸ ho l hl
    have hline : Line.of l.number (quoteLine none l.raw) = l := by
      rw [show quoteLine none l.raw = l.raw from rfl, ← hcut l hl]
    have hnext : openAfter none l.raw = none := by simp [openAfter, isInside, hopens]
    rw [List.cons_append, quoteLines, hline, hnext,
      ih (fun l h => hcut l (by simp [h])) (fun l h => ho l (by simp [h])), List.cons_append]

/-- Lines that open no list leave none open, or the one that was. -/
theorem quoteLines_append {i : Nat} {list : Option Nat} (hlist : OpenAt i list) {a : List Line}
    (hcut : AsCut a) (ho : ∀ l ∈ a, opensParameters l.text = false) (b : List Line) :
    ∃ list', OpenAt i list' ∧ quoteLines list (a ++ b) = quoteLines list a ++ quoteLines list' b := by
  induction a generalizing list with
  | nil => exact ⟨list, hlist, rfl⟩
  | cons l a ih =>
    have hl : l ∈ l :: a := List.mem_cons_self
    have hopens : opensParameters (trim l.raw) = false := hcut.text hl ▸ ho l hl
    have hnext : OpenAt i (openAfter list l.raw) := hlist.openAfter (by simp [hopens])
    obtain ⟨list', hlist', he⟩ := ih hnext (fun l h => hcut l (by simp [h]))
      (fun l h => ho l (by simp [h]))
    refine ⟨list', hlist', ?_⟩
    rw [List.cons_append, quoteLines, he, quoteLines, List.cons_append]

/-- Where no line inside an entry opens a list, no line of an entry with another key is rewritten. -/
theorem body_subset_quoteLines {i : Nat} {ls left : List Line} {es : List Entry}
    (h : Listed i ls es left) {list : Option Nat} (hlist : OpenAt i list) (hcut : AsCut ls)
    (ho : ∀ e ∈ es, ∀ l ∈ e.body, opensParameters l.text = false) :
    ∀ e ∈ es, e.key ∉ parameterKeys → ∀ l ∈ e.body, l ∈ quoteLines list ls := by
  induction h generalizing list with
  | nil h => simp
  | @cons e es ls mid left after h hi hk hv hr ih =>
    have hsplit : ls.takeWhile Line.isIdle ++ e.head :: (e.body ++ mid) = ls := by
      rw [← h]
      exact List.takeWhile_append_dropWhile
    have hsub : ∀ l ∈ e.head :: (e.body ++ mid), l ∈ ls := fun l hl =>
      hsplit ▸ List.mem_append_right _ hl
    have hidle : ∀ l ∈ ls.takeWhile Line.isIdle, opensParameters l.text = false := fun l hl =>
      opensParameters_of_isIdle (List.mem_takeWhile_imp hl)
    obtain ⟨list₁, hlist₁, he⟩ := quoteLines_append hlist
      (fun l hl => hcut l ((List.takeWhile_prefix _).subset hl)) hidle (e.head :: (e.body ++ mid))
    rw [hsplit, quoteLines] at he
    have htext : e.head.text = trim e.head.raw := hcut.text (hsub _ (by simp))
    have hindent : Lines.indent e.head.raw = i := by
      rw [← hi, hcut.indent (hsub _ (by simp))]
    have hcutBody : AsCut e.body := fun l hl => hcut l (hsub l (by simp [hl]))
    have hbody := ho e (by simp)
    intro e' he' hkey' l hl
    rw [he]
    refine List.mem_append_right _ (List.mem_cons_of_mem _ ?_)
    rcases List.mem_cons.mp he' with rfl | he'
    · rw [htext] at hk
      have hclosed := openAfter_of_other_key hlist₁ hindent hk hkey'
      rw [hclosed, quoteLines_none hcutBody hbody]
      exact List.mem_append_left _ hl
    · obtain ⟨list₃, hlist₃, he₃⟩ := quoteLines_append (hlist₁.openAfter fun _ => hindent)
        hcutBody hbody mid
      rw [he₃]
      exact List.mem_append_right _ (ih hlist₃ (fun l hl => hcut l (hsub l (by simp [hl])))
        (fun e he => ho e (by simp [he])) e' he' hkey' l hl)

theorem documentBody_prefix (ls : List Line) :
    ∃ front, ls = front ++ Outline.documentBody ls ∧ ∀ l ∈ front, opensParameters l.text = false := by
  have hsplit : ls.takeWhile Line.isIdle ++ Outline.active ls = ls :=
    List.takeWhile_append_dropWhile
  have hidle : ∀ l ∈ ls.takeWhile Line.isIdle, opensParameters l.text = false := fun l hl =>
    opensParameters_of_isIdle (List.mem_takeWhile_imp hl)
  unfold Outline.documentBody
  cases ha : Outline.active ls with
  | nil =>
    rw [ha] at hsplit
    exact ⟨_, hsplit.symm, hidle⟩
  | cons line rest =>
    rw [ha] at hsplit
    dsimp only
    split_ifs with hline
    · refine ⟨ls.takeWhile Line.isIdle ++ [line], ?_, ?_⟩
      · rw [List.append_assoc, List.singleton_append, hsplit]
      · intro l hl
        rcases List.mem_append.mp hl with hl | hl
        · exact hidle l hl
        · rw [List.mem_singleton.mp hl, hline]
          decide
    · exact ⟨_, hsplit.symm, hidle⟩

/-- If no line inside an entry opens a parameter list, the lines of all other entries stay. -/
theorem body_kept {n : Nat} {t : Text} {fields : Fields}
    (h : Outline.read t n = .ok (.object fields)) (hne : entries (document n t) ≠ [])
    (ho : ∀ e ∈ entries (document n t), ∀ l ∈ e.body, opensParameters l.text = false) {e : Entry}
    (he : e ∈ entries (document n t)) (hkey : e.key ∉ parameterKeys) {l : Line} (hl : l ∈ e.body) :
    l ∈ document n (escapeParameterLists t) := by
  obtain ⟨i, left, hlisted⟩ := (blockMapping_of_read h hne).listed
  obtain ⟨front, hfront, hopens⟩ := documentBody_prefix (document n t)
  have hcut : AsCut (document n t) := Outline.document_asCut n t
  have hquoted : document n (escapeParameterLists t) = quoteLines none (document n t) := by
    unfold document
    rw [split_escapeParameterLists, numbered_quoteItems]
  have hkept : l ∈ quoteLines none (Outline.documentBody (document n t)) :=
    body_subset_quoteLines hlisted (.inl rfl)
      (fun l hl => hcut l ((Outline.documentBody_suffix _).subset hl)) ho e he hkey l hl
  rw [hquoted, hfront, quoteLines_none (fun l hl => hcut l (by rw [hfront]; simp [hl])) hopens]
  exact List.mem_append_right _ hkept

/-! ### Top-level keys before and after escaping -/

/-- What escaping does to the keys other than `arguments` and `attributes`. Where the lines tell, a key
keeps its value exactly if it is not changed in one of the ways of `Changed`. A block of text whose line
starts an entry on both sides keeps its value exactly if none of its lines is rewritten. No key changes
if no line inside an entry opens a parameter list and the same lines start entries before and after
escaping. -/
theorem escape_keeps_other_keys_iff {n : Nat} {t : Text} {fields fields' : Fields}
    (h : Outline.read t n = .ok (.object fields))
    (h' : Outline.read (escapeParameterLists t) n = .ok (.object fields')) :
    (∀ key ∉ parameterKeys, ¬ Unsettled n t key →
      (Fields.get? key fields = Fields.get? key fields' ↔ ¬ Changed n t key)) ∧
    (∀ e ∈ entries (document n t), e.IsBlock →
      e.head ∈ (entries (document n (escapeParameterLists t))).map Entry.head →
      (Fields.get? e.key fields = Fields.get? e.key fields' ↔
        ∀ l ∈ e.body, l ∈ document n (escapeParameterLists t))) ∧
    (entries (document n t) ≠ [] →
      (∀ e ∈ entries (document n t), ∀ l ∈ e.body, opensParameters l.text = false) →
      (entries (document n t)).map Entry.head =
        (entries (document n (escapeParameterLists t))).map Entry.head →
      ∀ key ∉ parameterKeys, Fields.get? key fields = Fields.get? key fields') := by
  refine ⟨?_, ?_, ?_⟩
  · intro key _ hsettled
    exact get?_eq_iff_not_changed h h' hsettled
  · intro e he hblock hhead
    exact get?_eq_iff_of_block h h' he hblock hhead
  · intro hne ho hheads key hkey
    refine get?_eq_of_body h h' hne hheads ?_
    rintro e he rfl l hl
    exact body_kept h hne ho he hkey hl

/-- The text that a document holds under a key. -/
def textAt? (key : Text) : Except Outline.ReadError Json.Value → Option Text
  | .ok (.object fields) =>
    match Fields.get? key fields with
    | some (.string s) => some s
    | _ => none
  | _ => none

theorem textAt?_eq_some {key s : Text} {r : Except Outline.ReadError Json.Value}
    (h : textAt? key r = some s) :
    ∃ fields, r = .ok (.object fields) ∧ Fields.get? key fields = some (.string s) := by
  unfold textAt? at h
  split at h
  · next fields =>
    refine ⟨fields, rfl, ?_⟩
    split at h
    · next hs => cases h; exact hs
    · cases h
  · cases h

/-- A parameter that reads as a mapping before it is quoted, between two other entries. -/
def listedNotes : Text := "name: x\narguments:\n  - size: text\n  - b\ndescription: d".toList

theorem escape_keeps_other_keys_listedNotes :
    ∃ fields fields', Outline.read listedNotes 2 = .ok (.object fields) ∧
      Outline.read (escapeParameterLists listedNotes) 2 = .ok (.object fields') ∧
      ∀ key ∉ parameterKeys, Fields.get? key fields = Fields.get? key fields' := by
  obtain ⟨fields, h, -⟩ := @textAt?_eq_some "name".toList "x".toList
    (Outline.read listedNotes 2) (by decide +kernel)
  obtain ⟨fields', h', -⟩ := @textAt?_eq_some "name".toList "x".toList
    (Outline.read (escapeParameterLists listedNotes) 2) (by decide +kernel)
  have hempty : (entries (document 2 listedNotes)).isEmpty = false := by decide +kernel
  refine ⟨fields, fields', h, h', (escape_keeps_other_keys_iff h h').2.2 ?_ ?_ ?_⟩
  · exact List.isEmpty_eq_false_iff.mp hempty
  · decide +kernel
  · decide +kernel

/-- A literal block that mentions a parameter list. -/
def literalNotes : Text := "name: x\ndescription: |\n  arguments:\n  - foo".toList

/-- Escaping rewrites a literal block. -/
theorem escape_changes_literal_block :
    ¬ ∀ (n : Nat) (t : Text) (fields fields' : Fields),
      Outline.read t n = .ok (.object fields) →
      Outline.read (escapeParameterLists t) n = .ok (.object fields') →
      ∀ key ∉ parameterKeys, Fields.get? key fields = Fields.get? key fields' := by
  intro hall
  obtain ⟨fields, h, hs⟩ := @textAt?_eq_some "description".toList "arguments:\n- foo\n".toList
    (Outline.read literalNotes 2) (by decide +kernel)
  obtain ⟨fields', h', hs'⟩ := @textAt?_eq_some "description".toList
    "arguments:\n- \"foo\"\n".toList (Outline.read (escapeParameterLists literalNotes) 2)
    (by decide +kernel)
  have heq := hall 2 literalNotes fields fields' h h' "description".toList (by decide)
  rw [hs, hs'] at heq
  simp at heq

end Metadata
end TemplateDocs
