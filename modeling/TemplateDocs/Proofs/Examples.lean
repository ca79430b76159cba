import Mathlib
import TemplateDocs.Proofs.Findings
import TemplateDocs.Proofs.Locals

/-!
# Examples of a block

The examples of a block are taken one after the other. A bare example gives one variant, an override
object a run of them, and the number of the run is that of the object. Two fallbacks show the code as it
is: one for an override object without bare examples, and one for a block that gave no variant at all.
-/
namespace TemplateDocs

open Lines (isBlank)

/-- The text of a bare example that is not blank. -/
def Example.sample? : Example → Option Text
  | .source s => if isBlank s then none else some s
  | .object _ => none

def Example.isBare : Example → Bool
  | .source _ => true
  | .object _ => false

namespace Override

def samples (o : Override) : List Text := o.entries.filterMap Example.sample?

/-- The override objects directly inside an override object. -/
def nested (o : Override) : List Override := o.entries.filterMap Example.override?

/-- The override object without those inside it. -/
def unnested (o : Override) : Override := .mk o.settings (.many (o.entries.filter Example.isBare)) .absent

theorem samples_unnested (o : Override) : o.unnested.samples = o.samples := by
  have hentries : o.unnested.entries = o.entries.filter Example.isBare := List.append_nil _
  rw [samples, hentries, List.filterMap_filter, samples]
  refine List.filterMap_congr fun e _ => ?_
  cases e <;> rfl

end Override

def Example.unnested : Example → Example
  | .source s => .source s
  | .object o => .object o.unnested

namespace Metadata

/-- The metadata without override objects inside override objects. -/
def unnested (m : Metadata) : Metadata :=
  { m with example_ := .many (m.entries.map Example.unnested), examples := .absent }

end Metadata

namespace Assembly

/-! ### What examples give -/

/-- The source of a bare example: its text between those hooks that are not blank, put into the code. -/
def sampleSource (code : Text) (before after : Option Text) (sample : Text) : Text :=
  mergeSource code (Lines.toText
    ([before, some sample, after].reduceOption.filter fun part => !isBlank part))

/-- The variants of one override object. A hook that the object has, blank or not, stands in for the
block's. -/
structure Run (m : Metadata) (code : Text) (index : Nat) (o : Override) (vs : List Variant) : Prop where
  fragment : ∀ v ∈ vs, v.fragment = some index
  bare : o.samples = [] → vs.map Variant.source = [code]
  sampled : o.samples ≠ [] → vs.map Variant.source =
    o.samples.map (sampleSource code (o.settings.before.or m.settings.before)
      (o.settings.after.or m.settings.after))

/-- The variants of a list of examples, the first override object in it having the number `index`. -/
inductive Gives (m : Metadata) (code : Text) : (index : Nat) → List Example → List Variant → Prop
  | nil {index : Nat} : Gives m code index [] []
  | blank {index : Nat} {s : Text} {es : List Example} {vs : List Variant} (hs : isBlank s = true)
      (rest : Gives m code index es vs) : Gives m code index (.source s :: es) vs
  | sample {index : Nat} {s : Text} {es : List Example} {v : Variant} {vs : List Variant}
      (hs : isBlank s = false) (hfragment : v.fragment = none)
      (hsource : v.source = sampleSource code m.settings.before m.settings.after s)
      (rest : Gives m code index es vs) : Gives m code index (.source s :: es) (v :: vs)
  | override {index : Nat} {o : Override} {es : List Example} {run vs : List Variant}
      (hrun : Run m code index o run) (rest : Gives m code (index + 1) es vs) :
      Gives m code index (.object o :: es) (run ++ vs)

section Gives

variable {m : Metadata} {code : Text} {index : Nat} {o : Override} {es : List Example}
  {vs : List Variant}

theorem Run.ne_nil (h : Run m code index o vs) : vs ≠ [] := by
  rintro rfl
  by_cases hs : o.samples = []
  · cases h.bare hs
  · exact hs (List.map_eq_nil_iff.mp (h.sampled hs).symm)

theorem Gives.le_fragment (h : Gives m code index es vs) :
    ∀ v ∈ vs, ∀ j, v.fragment = some j → index ≤ j := by
  induction h with
  | nil => nofun
  | blank _ _ ih => exact ih
  | sample _ hfragment _ _ ih =>
    intro w hw j hj
    rcases List.mem_cons.mp hw with rfl | hw
    · rw [hfragment] at hj
      cases hj
    · exact ih w hw j hj
  | override hrun _ ih =>
    intro w hw j hj
    rcases List.mem_append.mp hw with hw | hw
    · rw [hrun.fragment w hw] at hj
      cases hj
      exact Nat.le_refl _
    · exact Nat.le_of_succ_le (ih w hw j hj)

/-- The variants of an override object stand together, and no other variant has its number. -/
theorem Gives.exists_run (h : Gives m code index es vs) {k : Nat}
    (hk : (es.filterMap Example.override?)[k]? = some o) :
    ∃ front run back, vs = front ++ run ++ back ∧ Run m code (index + k) o run ∧
      ∀ v ∈ front ++ back, v.fragment ≠ some (index + k) := by
  induction h generalizing k with
  | nil => simp at hk
  | blank _ _ ih => exact ih hk
  | @sample index s es v vs _ hfragment _ _ ih =>
    obtain ⟨front, run, back, rfl, hrun, hothers⟩ := ih hk
    refine ⟨v :: front, run, back, rfl, hrun, ?_⟩
    intro w hw
    rcases List.mem_cons.mp hw with rfl | hw
    · rw [hfragment]
      nofun
    · exact hothers w hw
  | @override index o' es first vs hfirst rest ih =>
    cases k with
    | zero =>
      obtain rfl : o' = o := by simpa [Example.override?] using hk
      refine ⟨[], first, vs, rfl, hfirst, ?_⟩
      intro w hw hindex
      have := rest.le_fragment w hw _ hindex
      omega
    | succ k =>
      obtain ⟨front, run, back, rfl, hrun, hothers⟩ := ih (k := k) (by simpa [Example.override?] using hk)
      have hnext : index + 1 + k = index + (k + 1) := by omega
      rw [hnext] at hrun hothers
      refine ⟨first ++ front, run, back, by simp, hrun, ?_⟩
      intro w hw
      rw [List.append_assoc] at hw
      rcases List.mem_append.mp hw with hw | hw
      · rw [hfirst.fragment w hw]
        simp
      · exact hothers w hw

end Gives

/-! ### What assembling does -/

theorem mergeSource_wrap (code : Text) (h : Hooks) (s : Text) :
    mergeSource code (h.wrap s) = sampleSource code h.before h.after s := by
  obtain ⟨before, after⟩ := h
  cases before <;> cases after <;> rfl

theorem filterMap_sources {f : Example → Option Text} {g : Text → Text}
    (hsource : ∀ s, f (.source s) = if isBlank s then none else some (g s))
    (hobject : ∀ o, f (.object o) = none) (es : List Example) :
    es.filterMap f = (es.filterMap Example.sample?).map g := by
  rw [List.map_filterMap]
  refine List.filterMap_congr fun e _ => ?_
  cases e with
  | source s =>
    rw [hsource, Example.sample?]
    split_ifs <;> rfl
  | object o => exact hobject o

theorem overrideSources_eq (code : Text) (h : Hooks) (o : Override) :
    overrideSources code h o =
      if o.samples = [] then [code] else o.samples.map (sampleSource code h.before h.after) := by
  refine (congrArg (fun sources => if sources.isEmpty then [code] else sources)
    (filterMap_sources (g := fun s => mergeSource code (h.wrap s)) ?_ ?_ o.entries)).trans ?_
  · exact fun _ => rfl
  · exact fun _ => rfl
  · simp only [List.isEmpty_iff, List.map_eq_nil_iff, mergeSource_wrap]
    rfl

section Steps

variable (m : Metadata) (code : Text)

/-- The label of an override object. -/
def fragmentLabel (index : Nat) (o : Override) : Text :=
  o.settings.name.getD (m.name.getD "block".toList ++ " fragment ".toList ++ Text.ofNat (index + 1))

/-- The variants of an override object, in full. -/
def runOf (index : Nat) (o : Override) : List Variant :=
  let sources := if o.samples = [] then [code]
    else o.samples.map (sampleSource code (o.settings.before.or m.settings.before)
      (o.settings.after.or m.settings.after))
  sources.map fun source => {
    label := fragmentLabel m index o
    source := source
    locals := Json.Fields.overlay (m.settings.locals.getD []) (o.settings.locals.getD [])
    fragment := some index }

theorem run_runOf (index : Nat) (o : Override) : Run m code index o (runOf m code index o) := by
  refine ⟨?_, ?_, ?_⟩
  · intro v hv
    obtain ⟨source, -, rfl⟩ := List.mem_map.mp hv
    rfl
  · intro hs
    simp [runOf, hs]
  · intro hs
    simp [runOf, hs, Function.comp_def]

theorem runOf_unnested (index : Nat) (o : Override) :
    runOf m code index o.unnested = runOf m code index o := by
  unfold runOf
  rw [o.samples_unnested]
  rfl

theorem add_blank (a : Assembly) {s : Text} (hs : isBlank s = true) :
    a.add (frameOf m code) (.source s) = a := if_pos hs

theorem add_sample (a : Assembly) {s : Text} (hs : isBlank s = false) :
    a.add (frameOf m code) (.source s) =
      { a with variants := a.variants ++ [{
          label := m.name.getD "block".toList ++ " example ".toList ++ Text.ofNat (a.variants.length + 1)
          source := sampleSource code m.settings.before m.settings.after s
          locals := m.settings.locals.getD []
          fragment := none }] } := by
  have hsource : mergeSource code (m.settings.hooks.wrap s) =
      sampleSource code m.settings.before m.settings.after s := mergeSource_wrap code m.settings.hooks s
  rw [← hsource]
  exact if_neg (by simp [hs])

theorem add_object (a : Assembly) (o : Override) :
    a.add (frameOf m code) (.object o) =
      { a with
        variants := a.variants ++ runOf m code a.fragments.length o
        fragments := a.fragments ++ [o]
        tooDeep := a.tooDeep ++ o.nested.map (nestedLabel (fragmentLabel m a.fragments.length o)) } := by
  have hsources : overrideSources code (o.settings.hooks.orElse m.settings.hooks) o =
      if o.samples = [] then [code]
      else o.samples.map (sampleSource code (o.settings.before.or m.settings.before)
        (o.settings.after.or m.settings.after)) := by
    rw [overrideSources_eq]
    simp only [Hooks.orElse, Option.orElse_eq_orElse, Option.orElse_eq_or]
    rfl
  have hnested (label : Text) : overrideTooDeep label o = o.nested.map (nestedLabel label) := by
    rw [Override.nested, List.map_filterMap]
    refine List.filterMap_congr fun e _ => ?_
    cases e <;> rfl
  rw [runOf, ← hsources, ← hnested]
  rfl

/-- The variants that a list of examples adds. -/
theorem exists_gives (a : Assembly) (es : List Example) :
    ∃ vs, Gives m code a.fragments.length es vs ∧
      (es.foldl (add (frameOf m code)) a).variants = a.variants ++ vs := by
  induction es generalizing a with
  | nil => exact ⟨[], .nil, by simp⟩
  | cons e es ih =>
    obtain ⟨vs, hvs, hfold⟩ := ih (a.add (frameOf m code) e)
    rw [List.foldl_cons, hfold]
    cases e with
    | source s =>
      cases hs : isBlank s with
      | true =>
        rw [add_blank m code a hs] at hvs ⊢
        exact ⟨vs, .blank hs hvs, rfl⟩
      | false =>
        rw [add_sample m code a hs] at hvs ⊢
        exact ⟨_ :: vs, .sample hs rfl rfl hvs, List.append_assoc ..⟩
    | object o =>
      rw [add_object] at hvs ⊢
      rw [List.length_append, List.length_singleton] at hvs
      exact ⟨_, .override (run_runOf m code a.fragments.length o) hvs, List.append_assoc ..⟩

theorem foldl_tooDeep (a : Assembly) (es : List Example) :
    (es.foldl (add (frameOf m code)) a).tooDeep = a.tooDeep ++
      ((es.filterMap Example.override?).zipIdx a.fragments.length).flatMap fun p =>
        p.1.nested.map (nestedLabel (fragmentLabel m p.2 p.1)) := by
  induction es generalizing a with
  | nil => simp
  | cons e es ih =>
    rw [List.foldl_cons, ih]
    cases e with
    | source s =>
      cases hs : isBlank s with
      | true => rw [add_blank m code a hs]; rfl
      | false => rw [add_sample m code a hs]; rfl
    | object o =>
      rw [add_object]
      simp [Example.override?]

/-- Override objects inside override objects change no variant. -/
theorem foldl_unnested {a b : Assembly} (hvariants : a.variants = b.variants)
    (hfragments : a.fragments.length = b.fragments.length) (es : List Example) :
    ((es.map Example.unnested).foldl (add (frameOf m code)) a).variants =
      (es.foldl (add (frameOf m code)) b).variants := by
  induction es generalizing a b with
  | nil => exact hvariants
  | cons e es ih =>
    rw [List.map_cons, List.foldl_cons, List.foldl_cons]
    cases e with
    | source s =>
      cases hs : isBlank s with
      | true =>
        rw [Example.unnested, add_blank m code a hs, add_blank m code b hs]
        exact ih hvariants hfragments
      | false =>
        rw [Example.unnested, add_sample m code a hs, add_sample m code b hs]
        exact ih (by simp [hvariants]) hfragments
    | object o =>
      rw [Example.unnested, add_object, add_object]
      exact ih (by simp [hvariants, hfragments, runOf_unnested]) (by simp [hfragments])

end Steps

theorem orCode_variants (frame : Frame) (a : Assembly) :
    (a.orCode frame).variants =
      if a.variants = [] then [⟨frame.label, frame.code, frame.locals, none⟩] else a.variants := by
  unfold orCode
  simp only [List.isEmpty_iff]
  split_ifs <;> rfl

theorem orCode_tooDeep (frame : Frame) (a : Assembly) : (a.orCode frame).tooDeep = a.tooDeep := by
  unfold orCode
  split_ifs <;> rfl

theorem ofMetadata_eq (m : Metadata) (code : Text) :
    ofMetadata m code = (m.entries.foldl (add (frameOf m code))
      { suppressed := m.isSuppressed }).orCode (frameOf m code) := rfl

theorem ofMetadata_unnested (m : Metadata) (code : Text) :
    (ofMetadata m.unnested code).variants = (ofMetadata m code).variants := by
  have hentries : m.unnested.entries = m.entries.map Example.unnested := List.append_nil _
  have hframe : frameOf m.unnested code = frameOf m code := rfl
  have hfold := foldl_unnested m code (a := { suppressed := m.unnested.isSuppressed })
    (b := { suppressed := m.isSuppressed }) rfl rfl m.entries
  rw [ofMetadata_eq, ofMetadata_eq, orCode_variants, orCode_variants, hentries, hframe, hfold]

/-- What an assembly of a block's examples has to be. -/
structure Assembles (m : Metadata) (code : Text) (a : Assembly) : Prop where
  fragments : a.fragments = m.overrides
  nonempty : a.variants ≠ []
  variants : ∃ vs, Gives m code 0 m.entries vs ∧ (vs ≠ [] → a.variants = vs) ∧
    (vs = [] → a.variants.map (fun v => (v.source, v.fragment)) = [(code, none)])
  runs : ∀ i o, a.fragments[i]? = some o → ∃ front run back, a.variants = front ++ run ++ back ∧
    run ≠ [] ∧ Run m code i o run ∧ ∀ v ∈ front ++ back, v.fragment ≠ some i
  tooDeep : a.tooDeep = m.overrides.zipIdx.flatMap fun p =>
    p.1.nested.map (nestedLabel (fragmentLabel m p.2 p.1))
  unnested : (ofMetadata m.unnested code).variants = a.variants

theorem ofMetadata_assembles (m : Metadata) (code : Text) : Assembles m code (ofMetadata m code) := by
  obtain ⟨vs, hgives, hfold⟩ : ∃ vs, Gives m code 0 m.entries vs ∧
      (m.entries.foldl (add (frameOf m code)) { suppressed := m.isSuppressed }).variants = vs :=
    exists_gives m code { suppressed := m.isSuppressed } m.entries
  have hvariants := orCode_variants (frameOf m code)
    (m.entries.foldl (add (frameOf m code)) { suppressed := m.isSuppressed })
  rw [← ofMetadata_eq, hfold] at hvariants
  have hfragments : (ofMetadata m code).fragments = m.overrides := (ofMetadata_layered m code).fragments
  have hlisted : vs ≠ [] → (ofMetadata m code).variants = vs := fun h => by rw [hvariants, if_neg h]
  refine ⟨hfragments, ofMetadata_variants_ne_nil m code, ⟨vs, hgives, hlisted, ?_⟩, ?_, ?_, ?_⟩
  · intro h
    rw [hvariants, if_pos h]
    rfl
  · intro i o hi
    rw [hfragments] at hi
    obtain ⟨front, run, back, hsplit, hrun, hothers⟩ := hgives.exists_run hi
    rw [Nat.zero_add] at hrun hothers
    have hne : vs ≠ [] := by simp [hsplit, hrun.ne_nil]
    exact ⟨front, run, back, (hlisted hne).trans hsplit, hrun.ne_nil, hrun, hothers⟩
  · rw [ofMetadata_eq, orCode_tooDeep, foldl_tooDeep]
    rfl
  · exact ofMetadata_unnested m code

end Assembly
end TemplateDocs
