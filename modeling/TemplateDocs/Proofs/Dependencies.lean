import Mathlib
import TemplateDocs.Proofs.Linking

/-!
# Dependencies come first

The mixins that a source needs are found by a depth-first visit of a call graph, which may have cycles.
The visit takes every mixin that calls lead to past the names that the source declares itself, each
once, and puts a mixin after the ones it calls unless calls lead back from them.
-/
namespace TemplateDocs.Mixin

open Relation (ReflTransGen)

/-- A mixin of the list has the first name and calls the second. -/
def CallsIn (mixins : List Mixin) (caller called : Text) : Prop :=
  ∃ m ∈ mixins, m.name = caller ∧ called ∈ calls m.declaration

theorem reaches_mono {ms ms' : List Mixin} (h : ms ⊆ ms') {start name : Text}
    (hreach : ReflTransGen (CallsIn ms) start name) : ReflTransGen (CallsIn ms') start name := by
  have hle : CallsIn ms ≤ CallsIn ms' := by
    rintro caller called ⟨m, hm, hcall⟩
    exact ⟨m, h hm, hcall⟩
  exact ReflTransGen.mono hle _ _ hreach

/-! ### Distinct names -/

theorem without_subset (name : Text) (ms : List Mixin) : without name ms ⊆ ms :=
  fun _ hm => List.mem_of_mem_filter hm

theorem names_nodup_filter {ms : List Mixin} (h : (ms.map name).Nodup) (p : Mixin → Bool) :
    ((ms.filter p).map name).Nodup :=
  h.sublist (List.filter_sublist.map name)

theorem names_firsts_nodup (ms : List Mixin) : ((firsts ms).map name).Nodup := by
  induction ms with
  | nil => exact List.nodup_nil
  | cons m ms ih =>
    rw [firsts, List.map_cons, List.nodup_cons]
    refine ⟨?_, names_nodup_filter ih _⟩
    simp [without]

/-- Where names are distinct, taking those of one name off takes off one mixin. -/
theorem cons_without_perm {pending : List Mixin} (hd : (pending.map name).Nodup) {m : Mixin}
    (h : m ∈ pending) : (m :: without m.name pending).Perm pending := by
  have herase : without m.name pending = pending.erase m := by
    rw [hd.of_map.erase_eq_filter, without]
    refine List.filter_congr fun m' hm' => ?_
    have hsame : m'.name = m.name ↔ m' = m :=
      ⟨fun heq => List.inj_on_of_nodup_map hd hm' h heq, fun heq => congrArg name heq⟩
    by_cases heq : m' = m <;> simp [hsame, heq]
  rw [herase]
  exact (List.perm_cons_erase h).symm

/-! ### What a visit takes -/

namespace Visits

variable {pending left ordered : List Mixin} {names : List Text}

/-- Every pending mixin is put in order or left, once. -/
theorem perm (h : Visits pending names left ordered) (hd : (pending.map name).Nodup) :
    (ordered ++ left).Perm pending := by
  induction h with
  | done => exact List.Perm.refl _
  | skip _ _ ih => exact ih hd
  | @take pending mid left inner others m names hm _ _ ihinner ihrest =>
    have hinner := ihinner (names_nodup_filter hd _)
    have hmid : (mid.map name).Nodup := by
      have := (hinner.map name).nodup_iff.mpr (names_nodup_filter hd _)
      rw [List.map_append] at this
      exact this.of_append_right
    calc
      (inner ++ m :: others) ++ left
      _ = inner ++ m :: (others ++ left) := by simp
      List.Perm _ (m :: (inner ++ (others ++ left))) := List.perm_middle
      List.Perm _ (m :: (inner ++ mid)) := ((ihrest hmid).append_left inner).cons m
      List.Perm _ (m :: without m.name pending) := hinner.cons m
      List.Perm _ pending := cons_without_perm hd hm

/-- Calls lead from the names asked for to every mixin that is put in order. -/
theorem reached (h : Visits pending names left ordered) :
    ∀ m ∈ ordered, ∃ name ∈ names, ReflTransGen (CallsIn pending) name m.name := by
  induction h with
  | done => exact fun _ hm => absurd hm List.not_mem_nil
  | skip _ _ ih =>
    intro m hm
    obtain ⟨name, hname, hreach⟩ := ih m hm
    exact ⟨name, List.mem_cons_of_mem _ hname, hreach⟩
  | @take pending mid left inner others m names hm hinner _ ihinner ihrest =>
    intro m' hm'
    rcases List.mem_append.mp hm' with hm' | hm'
    · obtain ⟨name, hname, hreach⟩ := ihinner m' hm'
      refine ⟨m.name, List.mem_cons_self, ?_⟩
      have hstep : CallsIn pending m.name name := ⟨m, hm, rfl, hname⟩
      exact .head hstep (reaches_mono (without_subset _ _) hreach)
    rcases List.mem_cons.mp hm' with rfl | hm'
    · exact ⟨m'.name, List.mem_cons_self, .refl⟩
    · obtain ⟨name, hname, hreach⟩ := ihrest m' hm'
      have hsub : mid ⊆ pending := fun _ hmid => without_subset _ _ (hinner.left_subset hmid)
      exact ⟨name, List.mem_cons_of_mem _ hname, reaches_mono hsub hreach⟩

/-- No mixin is left that calls lead to from the names asked for. -/
theorem not_left_of_reached (h : Visits pending names left ordered) (hd : (pending.map name).Nodup)
    {start name : Text} (hstart : start ∈ names) (hreach : ReflTransGen (CallsIn pending) start name) :
    ∀ m ∈ left, m.name ≠ name := by
  -- along the calls: a mixin that is not left was put in order, and then nothing it calls is left
  induction hreach with
  | refl => exact h.not_left_of_asked start hstart
  | tail _ hcall ih =>
    obtain ⟨caller, hcaller, rfl, hcalled⟩ := hcall
    rcases List.mem_append.mp ((h.perm hd).mem_iff.mpr hcaller) with hordered | hleft
    · exact h.not_left_of_called caller hordered _ hcalled
    · exact absurd rfl (ih caller hleft)

theorem mem_ordered_iff (h : Visits pending names left ordered) (hd : (pending.map name).Nodup)
    {m : Mixin} :
    m ∈ ordered ↔ m ∈ pending ∧ ∃ name ∈ names, ReflTransGen (CallsIn pending) name m.name := by
  constructor
  · exact fun hm => ⟨h.ordered_subset hm, h.reached m hm⟩
  · rintro ⟨hm, start, hstart, hreach⟩
    rcases List.mem_append.mp ((h.perm hd).mem_iff.mpr hm) with hordered | hleft
    · exact hordered
    · exact absurd rfl (h.not_left_of_reached hd hstart hreach m hleft)

/-- A mixin comes after the ones it calls, unless calls lead back to it. -/
theorem called_first (h : Visits pending names left ordered) :
    ∀ a ∈ ordered, ∀ b ∈ ordered, b.name ∈ calls a.declaration →
      ¬ ReflTransGen (CallsIn pending) b.name a.name → List.Sublist [b, a] ordered := by
  induction h with
  | done => exact fun _ ha => absurd ha List.not_mem_nil
  | skip _ _ ih => exact ih
  | @take pending mid left inner others m names hm hinner hrest ihinner ihrest =>
    intro a ha b hb hcall hback
    have hmid : mid ⊆ pending := fun _ h' => without_subset _ _ (hinner.left_subset h')
    rw [List.mem_append, List.mem_cons] at ha hb
    rcases ha with ha | rfl | ha
    · -- `a` is one of those that `m` waits for
      rcases hb with hb | rfl | hb
      · have hback' : ¬ ReflTransGen (CallsIn (without m.name pending)) b.name a.name :=
          fun hreach => hback (reaches_mono (without_subset _ _) hreach)
        exact (ihinner a ha b hb hcall hback').trans (List.sublist_append_left _ _)
      · obtain ⟨name, hname, hreach⟩ := hinner.reached a ha
        have hstep : CallsIn pending b.name name := ⟨b, hm, rfl, hname⟩
        exact absurd (.head hstep (reaches_mono (without_subset _ _) hreach)) hback
      · exact absurd rfl (hinner.not_left_of_called a ha b.name hcall b (hrest.ordered_subset hb))
    · rcases hb with hb | rfl | hb
      · exact (List.singleton_sublist.mpr hb).append (List.singleton_sublist.mpr List.mem_cons_self)
      · exact absurd .refl hback
      · exact absurd rfl (hinner.not_left_of_asked b.name hcall b (hrest.ordered_subset hb))
    · have ha' : List.Sublist [a] others := List.singleton_sublist.mpr ha
      rcases hb with hb | rfl | hb
      · exact (List.singleton_sublist.mpr hb).append (ha'.trans (List.sublist_cons_self _ _))
      · exact (ha'.cons_cons b).trans (List.sublist_append_right _ _)
      · have hback' : ¬ ReflTransGen (CallsIn mid) b.name a.name :=
          fun hreach => hback (reaches_mono hmid hreach)
        have htail : List.Sublist others (inner ++ m :: others) :=
          (List.sublist_cons_self _ _).trans (List.sublist_append_right _ _)
        exact (ihrest a ha b hb hcall hback').trans htail

end Visits

/-- No two mixins of a file have the same declaration. -/
theorem declaration_inj {ls : Lines} (hflat : ∀ l ∈ ls, '\n' ∉ l) {m m' : Mixin} (h : m ∈ table ls)
    (h' : m' ∈ table ls) (heq : m.declaration = m'.declaration) : m = m' := by
  obtain ⟨line, rest, hsplit, hname⟩ := declaredName?_head hflat h
  obtain ⟨line', rest', hsplit', hname'⟩ := declaredName?_head hflat h'
  rw [heq, hsplit'] at hsplit
  obtain ⟨rfl, -⟩ := List.cons.inj hsplit
  exact List.inj_on_of_nodup_map (names_firsts_nodup _) h h'
    (Option.some.inj (hname.symm.trans hname'))

/-- The dependencies of a source are the mixins of the file, those apart whose names the source
declares, that calls lead to from the source through such mixins only. Each is listed once, and after
the ones that it calls unless calls lead back from them. -/
theorem dependencies_first (file source : Text) :
    let mixins := table (Lines.ofText file)
    let others := mixins.filter fun m => m.name ∉ declaredNames source
    let needed := dependencies mixins source
    (needed.map name).Nodup ∧ (needed.map declaration).Nodup ∧
    (∀ m, m ∈ needed ↔
      m ∈ others ∧ ∃ name ∈ calls source, ReflTransGen (CallsIn others) name m.name) ∧
    ∀ a ∈ needed, ∀ b ∈ needed, b.name ∈ calls a.declaration →
      ¬ ReflTransGen (CallsIn others) b.name a.name → List.Sublist [b, a] needed := by
  intro mixins others needed
  have hdistinct : (others.map name).Nodup := names_nodup_filter (names_firsts_nodup _) _
  obtain ⟨left, hvisits⟩ : ∃ left, Visits others (calls source) left needed := by
    have hothers : others = mixins.filter fun m => !(declaredNames source).contains m.name := by
      refine List.filter_congr fun m _ => ?_
      simp
    rw [hothers]
    exact ⟨_, visits_visitAll _ _⟩
  have hnames : (needed.map name).Nodup := by
    have := ((hvisits.perm hdistinct).map name).nodup_iff.mpr hdistinct
    rw [List.map_append] at this
    exact this.of_append_left
  refine ⟨hnames, ?_, fun m => hvisits.mem_ordered_iff hdistinct, hvisits.called_first⟩
  refine hnames.of_map.map_on fun m hm m' hm' heq => ?_
  have hsub := dependencies_subset mixins source
  exact declaration_inj (fun l hl => Lines.ofText_flat hl) (hsub hm) (hsub hm') heq

end TemplateDocs.Mixin
