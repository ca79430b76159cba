import Mathlib
import TemplateDocs.Render

/-!
# Every variant is accounted for

A block is rendered variant by variant. Each attempt gives one output, which counts for the block and
for the fragment of the variant, or one failure, whatever the engine does when it is asked again for
details. No variant has a part in what becomes of another one.
-/
namespace TemplateDocs

/-- What an engine makes of a source. Either the source does not compile, or the compiled template is
given the locals. -/
inductive Engine.Makes (e : Engine) (source file : Text) (locals : Locals) (debug : Bool) :
    Except EngineError Text → Prop
  | uncompiled {err : EngineError} (h : e.compile source file debug = .error err) :
      Makes e source file locals debug (.error err)
  | rendered {template : Locals → Except EngineError Text}
      (h : e.compile source file debug = .ok template) :
      Makes e source file locals debug (template locals)

section

variable (e : Engine) (file : Text) (given : Variant → Locals)

/-- The error that a variant fails with, if it is given the locals `given`. The second attempt explains
the failure if it fails as well; if it succeeds, the variant has failed all the same. -/
inductive Variant.FailsWith (v : Variant) : EngineError → Prop
  | plain {err : EngineError} {unused : Text}
      (first : e.Makes v.source file (given v) false (.error err))
      (second : e.Makes v.source file (given v) true (.ok unused)) : FailsWith v err
  | detailed {err detail : EngineError} (first : e.Makes v.source file (given v) false (.error err))
      (second : e.Makes v.source file (given v) true (.error detail)) :
      FailsWith v ⟨detail.message, detail.excerpt <|> err.excerpt⟩

/-- The outputs and the failures of variants, in their order. Only the attempt without details gives
an output. -/
inductive Tally : List Variant → List (Variant × Text) → List RenderFailure → Prop
  | nil : Tally [] [] []
  | output {v : Variant} {vs : List Variant} {text : Text} {outputs : List (Variant × Text)}
      {failures : List RenderFailure} (h : e.Makes v.source file (given v) false (.ok text))
      (rest : Tally vs outputs failures) : Tally (v :: vs) ((v, text) :: outputs) failures
  | failure {v : Variant} {vs : List Variant} {err : EngineError} {outputs : List (Variant × Text)}
      {failures : List RenderFailure} (h : v.FailsWith e file given err)
      (rest : Tally vs outputs failures) : Tally (v :: vs) outputs (⟨v.label, err⟩ :: failures)

/-- The variants that are attempted: a suppressed block attempts those of its fragments. -/
def attempted (suppressed : Bool) (vs : List Variant) : List Variant :=
  if suppressed then vs.filter fun v => v.fragment.isSome else vs

/-- The outputs among `outputs` of the variants of one fragment. -/
def outputsFor (outputs : List (Variant × Text)) (index : Nat) : List Text :=
  (outputs.filter fun p => p.1.fragment = some index).map Prod.snd

/-- What is reported of an assembly whose variants gave `outputs`. -/
structure Assembly.Accounts (a : Assembly) (outputs : List (Variant × Text)) (r : BlockRender) :
    Prop where
  tally : Tally e file given (attempted a.suppressed a.variants) outputs r.failures
  output : r.output =
    if a.suppressed = false ∧ outputs ≠ [] then some (outputs.map Prod.snd).flatten else none
  /-- The fragments with an output, by increasing index. -/
  fragments : ∃ indices : List Nat, indices.Pairwise (· < ·) ∧
    (∀ i, i ∈ indices ↔ i < a.fragments.length ∧ ∃ p ∈ outputs, p.1.fragment = some i) ∧
    List.Forall₂ (fun i f => a.fragments[i]? = some f.spec ∧ f.output = (outputsFor outputs i).flatten)
      indices r.fragments

end

/-- A variant's locals over the global ones. -/
def Variant.localsOver (globals : Locals) (v : Variant) : Locals := Json.Fields.overlay globals v.locals

variable {e : Engine} {globals : Locals} {file : Text}

/-! ### One variant -/

theorem Engine.makes_iff {source : Text} {locals : Locals} {debug : Bool} {r : Except EngineError Text} :
    e.Makes source file locals debug r ↔ e.attempt source file locals debug = r := by
  unfold Engine.attempt
  constructor
  · intro h
    cases h with
    | uncompiled h => rw [h]
    | rendered h => rw [h]
  · intro h
    cases hcompile : e.compile source file debug with
    | error err =>
      rw [hcompile] at h
      exact h ▸ .uncompiled hcompile
    | ok template =>
      rw [hcompile] at h
      exact h ▸ .rendered hcompile

theorem Variant.makes_of_render {v : Variant} {text : Text}
    (h : e.render v.source file (v.localsOver globals) = .ok text) :
    e.Makes v.source file (v.localsOver globals) false (.ok text) := by
  unfold Engine.render at h
  rw [Engine.makes_iff]
  cases hfirst : e.attempt v.source file (v.localsOver globals) false with
  | ok output => simpa only [hfirst] using h
  | error err =>
    cases hsecond : e.attempt v.source file (v.localsOver globals) true <;> simp [hfirst, hsecond] at h

theorem Variant.failsWith_of_render {v : Variant} {err : EngineError}
    (h : e.render v.source file (v.localsOver globals) = .error err) :
    v.FailsWith e file (localsOver globals) err := by
  unfold Engine.render at h
  cases hfirst : e.attempt v.source file (v.localsOver globals) false with
  | ok output => simp [hfirst] at h
  | error plain =>
    cases hsecond : e.attempt v.source file (v.localsOver globals) true with
    | ok unused =>
      simp only [hfirst, hsecond, Except.error.injEq] at h
      subst h
      exact .plain (Engine.makes_iff.mpr hfirst) (Engine.makes_iff.mpr hsecond)
    | error detail =>
      simp only [hfirst, hsecond, Except.error.injEq] at h
      subst h
      exact .detailed (Engine.makes_iff.mpr hfirst) (Engine.makes_iff.mpr hsecond)

/-- The attempt at one variant. -/
def attemptAt (e : Engine) (globals : Locals) (file : Text) (v : Variant) : Attempt :=
  ⟨v, e.render v.source file (v.localsOver globals), e.attempts v.source file (v.localsOver globals)⟩

/-- An attempt has an output or a failure, never both. -/
theorem attemptAt_cases (v : Variant) :
    (∃ text, e.Makes v.source file (v.localsOver globals) false (.ok text) ∧
      (attemptAt e globals file v).output? = some text ∧
      (attemptAt e globals file v).failure? = none) ∨
    ∃ err, v.FailsWith e file (Variant.localsOver globals) err ∧
      (attemptAt e globals file v).output? = none ∧
      (attemptAt e globals file v).failure? = some ⟨v.label, err⟩ := by
  unfold Attempt.output? Attempt.failure? attemptAt
  dsimp only
  cases h : e.render v.source file (v.localsOver globals) with
  | ok text => exact .inl ⟨text, Variant.makes_of_render h, rfl, rfl⟩
  | error err => exact .inr ⟨err, Variant.failsWith_of_render h, rfl, rfl⟩

/-! ### All variants -/

/-- The outputs of attempts, each with its variant. -/
def produced (attempts : List Attempt) : List (Variant × Text) :=
  attempts.filterMap fun t => t.output?.map fun text => (t.variant, text)

theorem attempts_eq_map (a : Assembly) :
    a.attempts e globals file = (attempted a.suppressed a.variants).map (attemptAt e globals file) := by
  have hwanted : a.wanted = attempted a.suppressed a.variants := by
    unfold Assembly.wanted attempted
    cases a.suppressed with
    | false => simp
    | true =>
      rw [if_pos rfl]
      refine List.filter_congr fun v _ => ?_
      cases v.fragment <;> rfl
  rw [Assembly.attempts, hwanted]
  rfl

theorem tally_attempts (vs : List Variant) :
    Tally e file (Variant.localsOver globals) vs (produced (vs.map (attemptAt e globals file)))
      ((vs.map (attemptAt e globals file)).filterMap Attempt.failure?) := by
  induction vs with
  | nil => exact .nil
  | cons v vs ih =>
    unfold produced at ih ⊢
    rw [List.map_cons, List.filterMap_cons, List.filterMap_cons]
    rcases @attemptAt_cases e globals file v with ⟨text, h, hout, hfail⟩ | ⟨err, h, hout, hfail⟩
    · rw [hout, hfail]
      exact .output h ih
    · rw [hout, hfail]
      exact .failure h ih

theorem map_snd_produced (attempts : List Attempt) :
    (produced attempts).map Prod.snd = attempts.filterMap Attempt.output? := by
  simp [produced, List.map_filterMap, Function.comp_def]

theorem outputsFor_produced (attempts : List Attempt) (index : Nat) :
    outputsFor (produced attempts) index = Attempt.outputsOf index attempts := by
  unfold outputsFor Attempt.outputsOf
  induction attempts with
  | nil => rfl
  | cons t attempts ih =>
    by_cases hf : t.variant.fragment = some index <;> cases ho : t.output? <;>
      simp_all [produced]

theorem outputsFor_ne_nil_iff {outputs : List (Variant × Text)} {index : Nat} :
    outputsFor outputs index ≠ [] ↔ ∃ p ∈ outputs, p.1.fragment = some index := by
  simp [outputsFor]

/-! ### Fragments -/

theorem fragmentsOf_eq_map (attempts : List Attempt) (fragments : List Override) :
    BlockRender.fragmentsOf attempts fragments =
      (fragments.zipIdx.filter fun p => !(Attempt.outputsOf p.2 attempts).isEmpty).map fun p =>
        ⟨p.1, (Attempt.outputsOf p.2 attempts).flatten⟩ := by
  unfold BlockRender.fragmentsOf
  induction fragments.zipIdx with
  | nil => rfl
  | cons p rest ih =>
    cases h : Attempt.outputsOf p.2 attempts with
    | nil => simpa [h] using ih
    | cons text texts => simpa [h] using ih

theorem fragmentsOf_exact (attempts : List Attempt) (fragments : List Override) :
    ∃ indices : List Nat, indices.Pairwise (· < ·) ∧
      (∀ i, i ∈ indices ↔ i < fragments.length ∧ ∃ p ∈ produced attempts, p.1.fragment = some i) ∧
      List.Forall₂ (fun i f =>
        fragments[i]? = some f.spec ∧ f.output = (outputsFor (produced attempts) i).flatten)
        indices (BlockRender.fragmentsOf attempts fragments) := by
  let kept := fragments.zipIdx.filter fun p => !(Attempt.outputsOf p.2 attempts).isEmpty
  have hkept : ∀ {spec : Override} {i : Nat}, (spec, i) ∈ kept ↔
      fragments[i]? = some spec ∧ ∃ p ∈ produced attempts, p.1.fragment = some i := by
    intro spec i
    rw [List.mem_filter, List.mk_mem_zipIdx_iff_getElem?, ← outputsFor_ne_nil_iff,
      outputsFor_produced]
    simp
  refine ⟨kept.map Prod.snd, ?_, ?_, ?_⟩
  · have hall : (fragments.zipIdx.map Prod.snd).Pairwise (· < ·) := by
      rw [List.zipIdx_map_snd]
      exact List.pairwise_lt_range'
    exact hall.sublist (List.filter_sublist.map Prod.snd)
  · intro i
    constructor
    · intro hi
      obtain ⟨⟨spec, i⟩, hmem, rfl⟩ := List.mem_map.mp hi
      obtain ⟨hspec, hout⟩ := hkept.mp hmem
      exact ⟨(List.getElem?_eq_some_iff.mp hspec).1, hout⟩
    · rintro ⟨hlt, hout⟩
      exact List.mem_map.mpr ⟨(fragments[i], i), hkept.mpr ⟨List.getElem?_eq_getElem hlt, hout⟩, rfl⟩
  · rw [fragmentsOf_eq_map, List.forall₂_map_left_iff, List.forall₂_map_right_iff, List.forall₂_same]
    rintro ⟨spec, i⟩ hmem
    exact ⟨(hkept.mp hmem).1, by rw [outputsFor_produced]⟩

/-! ### The whole block -/

theorem Assembly.accounts_render (e : Engine) (globals : Locals) (file : Text) (a : Assembly) :
    a.Accounts e file (Variant.localsOver globals) (produced (a.attempts e globals file))
      (a.render e globals file) where
  tally := by
    rw [render, attempts_eq_map]
    exact tally_attempts _
  output := by
    have hsome : produced (a.attempts e globals file) ≠ [] ↔
        (a.attempts e globals file).filterMap Attempt.output? ≠ [] := by
      rw [← map_snd_produced, Ne, Ne, List.map_eq_nil_iff]
    simp only [map_snd_produced, hsome]
    cases hs : a.suppressed <;>
      cases ho : (a.attempts e globals file).filterMap Attempt.output? <;>
      simp [render, BlockRender.ofAttempts, hs, ho]
  fragments := fragmentsOf_exact _ _

theorem attempted_append (suppressed : Bool) (vs vs' : List Variant) :
    attempted suppressed (vs ++ vs') = attempted suppressed vs ++ attempted suppressed vs' := by
  unfold attempted
  split_ifs
  · exact List.filter_append ..
  · rfl

/-- Rendering accounts for every variant of an assembly. Whatever source and locals one variant is
given, the outputs and the failures of the variants before and after it are the same. -/
theorem Assembly.render_accounts_for_variants (e : Engine) (globals : Locals) (file : Text)
    (a : Assembly) :
    (∃ outputs, a.Accounts e file (Variant.localsOver globals) outputs (a.render e globals file)) ∧
    ∀ front v back, a.variants = front ++ v :: back →
      ∃ outputs outputs' failures failures',
        Tally e file (Variant.localsOver globals) (attempted a.suppressed front) outputs failures ∧
        Tally e file (Variant.localsOver globals) (attempted a.suppressed back) outputs' failures' ∧
        ∀ source locals,
          let v' := { v with source := source, locals := locals }
          let a' := { a with variants := front ++ v' :: back }
          ∃ own failed, Tally e file (Variant.localsOver globals) (attempted a.suppressed [v']) own failed ∧
            a'.Accounts e file (Variant.localsOver globals) (outputs ++ own ++ outputs')
              (a'.render e globals file) ∧
            (a'.render e globals file).failures = failures ++ failed ++ failures' := by
  refine ⟨⟨_, a.accounts_render e globals file⟩, ?_⟩
  intro front v back _
  refine ⟨_, _, _, _, tally_attempts _, tally_attempts _, ?_⟩
  intro source locals v' a'
  have hparts : a'.attempts e globals file =
      (attempted a.suppressed front).map (attemptAt e globals file) ++
        (attempted a.suppressed [v']).map (attemptAt e globals file) ++
        (attempted a.suppressed back).map (attemptAt e globals file) := by
    rw [attempts_eq_map, ← List.map_append, ← List.map_append, ← attempted_append,
      ← attempted_append, List.append_assoc]
    rfl
  refine ⟨_, _, tally_attempts _, ?_, ?_⟩
  · have haccounts := a'.accounts_render e globals file
    rw [hparts] at haccounts
    simpa only [produced, List.filterMap_append] using haccounts
  · change (a'.attempts e globals file).filterMap Attempt.failure? = _
    rw [hparts, List.filterMap_append, List.filterMap_append]

end TemplateDocs
