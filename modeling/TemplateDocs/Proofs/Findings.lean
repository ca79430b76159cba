import Mathlib
import TemplateDocs.Generate
import TemplateDocs.Proofs.Extraction

/-!
# Findings of one template, block by block

What a template yields is put together from what each of its blocks yields alone. A block without a
name ends the run, and every other block leaves a trace: a document, or a diagnostic that says why
there is none, unless its output is not wanted.
-/
namespace TemplateDocs

namespace Block

/-- The annotation can be read but gives the block no name. -/
def Nameless (b : Block) : Prop := ∃ m, Metadata.ofBlock b = .ok m ∧ m.name = none

end Block

namespace Findings

@[simp] theorem append_documents (a b : Findings) :
    (a ++ b).documents = a.documents ++ b.documents := rfl

@[simp] theorem append_diagnostics (a b : Findings) :
    (a ++ b).diagnostics = a.diagnostics ++ b.diagnostics := rfl

theorem append_nothing (a : Findings) : a ++ ({} : Findings) = a := by
  change Findings.append a {} = a
  simp [append]

end Findings

namespace Assembly

theorem orCode_variants_ne_nil (frame : Frame) (a : Assembly) : (orCode frame a).variants ≠ [] := by
  unfold orCode
  split
  · simp
  · next h => simpa using h

theorem orCode_suppressed (frame : Frame) (a : Assembly) :
    (orCode frame a).suppressed = a.suppressed := by
  unfold orCode
  split <;> rfl

theorem add_suppressed (frame : Frame) (a : Assembly) (e : Example) :
    (add frame a e).suppressed = a.suppressed := by
  cases e with
  | source s =>
    change (addSource frame a s).suppressed = a.suppressed
    unfold addSource
    split <;> rfl
  | object o => rfl

theorem foldl_add_suppressed (frame : Frame) (es : List Example) (a : Assembly) :
    (es.foldl (add frame) a).suppressed = a.suppressed := by
  induction es generalizing a with
  | nil => rfl
  | cons e es ih => rw [List.foldl_cons, ih, add_suppressed]

theorem ofMetadata_suppressed (m : Metadata) (code : Text) :
    (ofMetadata m code).suppressed = m.isSuppressed := by
  unfold ofMetadata
  rw [orCode_suppressed, foldl_add_suppressed]

theorem ofMetadata_variants_ne_nil (m : Metadata) (code : Text) :
    (ofMetadata m code).variants ≠ [] := orCode_variants_ne_nil _ _

theorem link_suppressed (mixins : List Mixin) (a : Assembly) :
    (a.link mixins).suppressed = a.suppressed := rfl

theorem link_variants_ne_nil {a : Assembly} (h : a.variants ≠ []) (mixins : List Mixin) :
    (a.link mixins).variants ≠ [] := by
  simpa [link] using h

theorem wanted_eq_variants {a : Assembly} (h : a.suppressed = false) : a.wanted = a.variants := by
  simp [wanted, h]

/-- If nothing is suppressed and nothing came out, some variant failed. -/
theorem failures_ne_nil {a : Assembly} {e : Engine} {globals : Locals} {file : Text}
    (hs : a.suppressed = false) (hv : a.variants ≠ [])
    (ho : (a.render e globals file).output = none) : (a.render e globals file).failures ≠ [] := by
  obtain ⟨v, vs, hvs⟩ := List.exists_cons_of_ne_nil hv
  have ha : a.attempts e globals file ≠ [] := by
    simp [attempts, wanted_eq_variants hs, hvs]
  obtain ⟨first, others, hf⟩ := List.exists_cons_of_ne_nil ha
  simp only [render, BlockRender.ofAttempts, hs, hf, Bool.false_or] at ho ⊢
  cases hr : first.outcome with
  | ok output => simp [Attempt.output?, hr, Except.toOption] at ho
  | error err => simp [Attempt.failure?, hr]

end Assembly

namespace Setting

variable {s : Setting} {b : Block} {blocks : List Block} {part found : Findings}

/-- The run on a list of blocks is the runs on its members, one after the other. -/
theorem generateBlocks_cons (s : Setting) (b : Block) (rest : List Block) :
    s.generateBlocks (b :: rest) =
      match s.generateBlocks [b] with
      | .error missing => .error missing
      | .ok part => (s.generateBlocks rest).map (part ++ ·) := by
  rw [generateBlocks, generateBlocks.eq_def s [b]]
  dsimp only
  cases Metadata.ofBlock b with
  | error error => rfl
  | ok m =>
    dsimp only
    cases hb : s.generateBlock b m with
    | error missing => rfl
    | ok part =>
      change _ = (s.generateBlocks rest).map (part ++ ({} : Findings) ++ ·)
      rw [Findings.append_nothing]

/-- What holds of the findings of single blocks, and of findings put together, holds of all. -/
theorem generateBlocks_induction {P : Findings → Prop} (hnothing : P {})
    (happend : ∀ a b, P a → P b → P (a ++ b))
    (hunread : ∀ line error, P { diagnostics := [⟨s.file, none, line, .metadata error⟩] })
    (hblock : ∀ b m part, Metadata.ofBlock b = .ok m → s.generateBlock b m = .ok part → P part)
    {blocks : List Block} (h : s.generateBlocks blocks = .ok found) : P found := by
  induction blocks generalizing found with
  | nil =>
    cases h
    exact hnothing
  | cons b rest ih =>
    have hmap : ∀ part, P part → (s.generateBlocks rest).map (part ++ ·) = .ok found → P found := by
      intro part hpart h
      cases hrest : s.generateBlocks rest with
      | error e => simp [hrest, Except.map] at h
      | ok others =>
        rw [hrest] at h
        cases h
        exact happend part others hpart (ih hrest)
    rw [generateBlocks] at h
    split at h
    · exact hmap _ (hunread b.line _) h
    · next m hm =>
      split at h
      · cases h
      · next part hpart => exact hmap part (hblock b m part hm hpart) h

theorem generateBlock_eq_error_iff {m : Metadata} {missing : MissingName} :
    s.generateBlock b m = .error missing ↔ m.name = none ∧ missing = ⟨s.file, b.line⟩ := by
  unfold generateBlock Document.ofBlock?
  cases hn : m.name with
  | none => simp [eq_comm]
  | some name => simp

/-- A block alone fails exactly if it has no name. -/
theorem generateBlocks_singleton_error_iff {missing : MissingName} :
    s.generateBlocks [b] = .error missing ↔ b.Nameless ∧ missing = ⟨s.file, b.line⟩ := by
  unfold generateBlocks Block.Nameless
  cases hm : Metadata.ofBlock b with
  | error error => simp [generateBlocks, Except.map]
  | ok m =>
    cases hb : s.generateBlock b m with
    | error e =>
      obtain ⟨hn, rfl⟩ := generateBlock_eq_error_iff.mp hb
      simp [hb, hn, eq_comm]
    | ok part =>
      have hn : m.name ≠ none := fun hn => by
        rw [generateBlock_eq_error_iff.mpr ⟨hn, rfl⟩] at hb
        cases hb
      simp [hb, hn, generateBlocks, Except.map]

/-- What a block alone can yield. -/
theorem generateBlocks_singleton_cases (h : s.generateBlocks [b] = .ok part) :
    (∃ error, Metadata.ofBlock b = .error error ∧ part.documents = [] ∧
      part.diagnostics = [⟨s.file, none, b.line, .metadata error⟩]) ∨
    ∃ m, Metadata.ofBlock b = .ok m ∧ s.generateBlock b m = .ok part := by
  unfold generateBlocks at h
  cases hm : Metadata.ofBlock b with
  | error error =>
    rw [hm] at h
    cases h
    exact .inl ⟨error, rfl, rfl, rfl⟩
  | ok m =>
    rw [hm] at h
    dsimp only at h
    cases hb : s.generateBlock b m with
    | error e => simp [hb] at h
    | ok found =>
      rw [hb] at h
      change Except.ok (found ++ ({} : Findings)) = .ok part at h
      rw [Findings.append_nothing] at h
      exact .inr ⟨m, rfl, hb.trans h⟩

/-- What a block with readable metadata yields is about its own marker line, and without a document
there is a failed example or nothing was wanted. -/
theorem generateBlock_ok {m : Metadata} (h : s.generateBlock b m = .ok part) :
    part.documents.length ≤ 1 ∧ (∀ d ∈ part.documents, d.line = b.line) ∧
    (∀ d ∈ part.diagnostics, d.line = b.line) ∧
    (part.documents = [] → m.isSuppressed = false →
      ∃ d ∈ part.diagnostics, ∃ failure record, d.problem = .render failure record) := by
  unfold generateBlock at h
  extract_lets assembly render problems at h
  cases hd : Document.ofBlock? s.file b m render with
  | none => simp [hd] at h
  | some document =>
    have hdoc : document.line = b.line ∧ document.output = render.output := by
      unfold Document.ofBlock? at hd
      split_ifs at hd
      cases hd
      exact ⟨rfl, rfl⟩
    rw [hd] at h
    cases h
    refine ⟨?_, ?_, ?_, ?_⟩
    · dsimp only
      split <;> simp
    · intro d hm
      dsimp only at hm
      split at hm
      · simp at hm
      · rw [List.mem_singleton.mp hm]
        exact hdoc.1
    · intro d hm
      obtain ⟨problem, _, rfl⟩ := List.mem_map.mp hm
      rfl
    · intro hnone hsup
      have he : document.isEmpty = true := by
        by_contra hne
        simp [hne] at hnone
      have ho : render.output = none := by
        rw [← hdoc.2]
        simpa using (Bool.and_eq_true_iff.mp he).1
      have hs : assembly.suppressed = false := by
        rw [Assembly.link_suppressed, Assembly.ofMetadata_suppressed, hsup]
      have hv : assembly.variants ≠ [] :=
        Assembly.link_variants_ne_nil (Assembly.ofMetadata_variants_ne_nil m b.codeText) s.mixins
      obtain ⟨failure, others, hf⟩ :=
        List.exists_cons_of_ne_nil (Assembly.failures_ne_nil hs hv ho)
      refine ⟨⟨s.file, m.name, b.line, .render failure (Json.pretty m.record)⟩, ?_,
        failure, _, rfl⟩
      refine List.mem_map.mpr ⟨_, List.mem_append_right _ ?_, rfl⟩
      exact List.mem_map.mpr ⟨failure, hf ▸ List.mem_cons_self, rfl⟩

theorem generateBlocks_singleton_ok (h : s.generateBlocks [b] = .ok part) :
    part.documents.length ≤ 1 ∧ (∀ d ∈ part.documents, d.line = b.line) ∧
      ∀ d ∈ part.diagnostics, d.line = b.line := by
  rcases generateBlocks_singleton_cases h with ⟨error, -, hdoc, hdiag⟩ | ⟨m, -, hb⟩
  · simp [hdoc, hdiag]
  · obtain ⟨hlen, hdoc, hdiag, -⟩ := generateBlock_ok hb
    exact ⟨hlen, hdoc, hdiag⟩

/-- A block without a document is accounted for. -/
theorem generateBlocks_singleton_trace (h : s.generateBlocks [b] = .ok part)
    (hd : part.documents = []) :
    (∃ error, Metadata.ofBlock b = .error error ∧
      part.diagnostics = [⟨s.file, none, b.line, .metadata error⟩]) ∨
    (∃ m, Metadata.ofBlock b = .ok m ∧ m.isSuppressed = true) ∨
    ∃ d ∈ part.diagnostics, ∃ failure record, d.problem = .render failure record := by
  rcases generateBlocks_singleton_cases h with ⟨error, hm, -, hdiag⟩ | ⟨m, hm, hb⟩
  · exact .inl ⟨error, hm, hdiag⟩
  · cases hs : m.isSuppressed with
    | true => exact .inr (.inl ⟨m, hm, hs⟩)
    | false => exact .inr (.inr ((generateBlock_ok hb).2.2.2 hd hs))

theorem generateBlocks_eq_error_iff {missing : MissingName} :
    s.generateBlocks blocks = .error missing ↔
      ∃ before b after, blocks = before ++ b :: after ∧ (∀ a ∈ before, ¬ a.Nameless) ∧
        b.Nameless ∧ missing = ⟨s.file, b.line⟩ := by
  induction blocks with
  | nil => simp [generateBlocks]
  | cons b rest ih =>
    rw [generateBlocks_cons]
    cases hb : s.generateBlocks [b] with
    | error e =>
      obtain ⟨hn, rfl⟩ := generateBlocks_singleton_error_iff.mp hb
      constructor
      · intro h
        cases h
        exact ⟨[], b, rest, rfl, by simp, hn, rfl⟩
      · rintro ⟨before, c, after, hsplit, hbefore, -, rfl⟩
        rcases before with _ | ⟨a, before⟩
        · cases hsplit
          rfl
        · cases hsplit
          exact absurd hn (hbefore b (by simp))
    | ok part =>
      have hn : ¬ b.Nameless := fun hn => by
        rw [generateBlocks_singleton_error_iff.mpr ⟨hn, rfl⟩] at hb
        cases hb
      have hmap : (s.generateBlocks rest).map (part ++ ·) = .error missing ↔
          s.generateBlocks rest = .error missing := by
        cases s.generateBlocks rest <;> simp [Except.map]
      dsimp only
      rw [hmap, ih]
      constructor
      · rintro ⟨before, c, after, rfl, hbefore, hc, rfl⟩
        exact ⟨b :: before, c, after, rfl, by simpa [hn] using hbefore, hc, rfl⟩
      · rintro ⟨before, c, after, hsplit, hbefore, hc, rfl⟩
        rcases before with _ | ⟨a, before⟩
        · cases hsplit
          exact absurd hc hn
        · cases hsplit
          exact ⟨before, c, after, rfl, fun d hd => hbefore d (by simp [hd]), hc, rfl⟩

/-- The findings are those of the blocks alone, in order. -/
theorem generateBlocks_eq_ok (h : s.generateBlocks blocks = .ok found) :
    ∃ parts : List Findings,
      List.Forall₂ (fun b part => s.generateBlocks [b] = .ok part) blocks parts ∧
      found.documents = parts.flatMap Findings.documents ∧
      found.diagnostics = parts.flatMap Findings.diagnostics := by
  induction blocks generalizing found with
  | nil =>
    cases h
    exact ⟨[], .nil, rfl, rfl⟩
  | cons b rest ih =>
    rw [generateBlocks_cons] at h
    cases hb : s.generateBlocks [b] with
    | error e => simp [hb] at h
    | ok part =>
      cases hr : s.generateBlocks rest with
      | error e => simp [hb, hr, Except.map] at h
      | ok others =>
        obtain ⟨parts, hparts, hdoc, hdiag⟩ := ih hr
        simp only [hb, hr, Except.map, Except.ok.injEq] at h
        subst h
        exact ⟨part :: parts, .cons hb hparts, by simp [hdoc], by simp [hdiag]⟩

/-- Each block of `blocks` alone yields the findings at its place in `parts`. -/
abbrev Parts (s : Setting) : List Block → List Findings → Prop :=
  List.Forall₂ fun b part => s.generateBlocks [b] = .ok part

variable {parts : List Findings}

/-- Findings of later blocks are about later lines. -/
theorem Parts.line_lt (h : s.Parts blocks parts) {line : Nat} (hb : ∀ b ∈ blocks, line < b.line) :
    (∀ d ∈ parts.flatMap Findings.documents, line < d.line) ∧
      ∀ d ∈ parts.flatMap Findings.diagnostics, line < d.line := by
  induction h with
  | nil => simp
  | @cons b part blocks parts hpart _ ih =>
    obtain ⟨-, hdoc, hdiag⟩ := generateBlocks_singleton_ok hpart
    obtain ⟨ihdoc, ihdiag⟩ := ih fun c hc => hb c (by simp [hc])
    have hline := hb b (by simp)
    simp only [List.flatMap_cons, List.mem_append]
    refine ⟨?_, ?_⟩
    · rintro d (hd | hd)
      · exact hdoc d hd ▸ hline
      · exact ihdoc d hd
    · rintro d (hd | hd)
      · exact hdiag d hd ▸ hline
      · exact ihdiag d hd

theorem Parts.documents_lines (h : s.Parts blocks parts)
    (hlines : blocks.Pairwise fun a b => a.line < b.line) :
    (parts.flatMap Findings.documents).Pairwise fun a b => a.line < b.line := by
  induction h with
  | nil => exact List.Pairwise.nil
  | @cons b part blocks parts hpart hparts ih =>
    obtain ⟨hlater, hlines⟩ := List.pairwise_cons.mp hlines
    obtain ⟨hlen, hdoc, -⟩ := generateBlocks_singleton_ok hpart
    rw [List.flatMap_cons, List.pairwise_append]
    refine ⟨?_, ih hlines, ?_⟩
    · rcases hp : part.documents with _ | ⟨d, _ | ⟨e, rest⟩⟩
      · exact List.Pairwise.nil
      · exact List.pairwise_singleton _ _
      · simp [hp] at hlen
    · intro a ha d hd
      exact hdoc a ha ▸ (Parts.line_lt hparts hlater).1 d hd

/-- What the whole run says about the marker line of a block is what the block alone yields. -/
theorem Parts.at_line (h : s.Parts blocks parts)
    (hlines : blocks.Pairwise fun a b => a.line < b.line) (hb : b ∈ blocks) :
    ∃ part, s.generateBlocks [b] = .ok part ∧
      (parts.flatMap Findings.documents).filter (·.line = b.line) = part.documents ∧
      (parts.flatMap Findings.diagnostics).filter (·.line = b.line) = part.diagnostics := by
  induction h with
  | nil => simp at hb
  | @cons c part blocks parts hpart hparts ih =>
    obtain ⟨hlater, hlines⟩ := List.pairwise_cons.mp hlines
    obtain ⟨-, hdoc, hdiag⟩ := generateBlocks_singleton_ok hpart
    obtain ⟨hdocs, hdiags⟩ := Parts.line_lt hparts hlater
    simp only [List.flatMap_cons, List.filter_append]
    rcases List.mem_cons.mp hb with rfl | hb
    · refine ⟨part, hpart, ?_, ?_⟩
      · rw [List.filter_eq_self.mpr (by simpa using hdoc), List.filter_eq_nil_iff.mpr,
          List.append_nil]
        simpa using fun d hd => (hdocs d (List.mem_flatMap.mpr hd)).ne'
      · rw [List.filter_eq_self.mpr (by simpa using hdiag), List.filter_eq_nil_iff.mpr,
          List.append_nil]
        simpa using fun d hd => (hdiags d (List.mem_flatMap.mpr hd)).ne'
    · obtain ⟨own, hown, hod, hog⟩ := ih hlines hb
      have hne := (hlater b hb).ne
      refine ⟨own, hown, ?_, ?_⟩
      · rw [hod, List.filter_eq_nil_iff.mpr, List.nil_append]
        intro d hd
        simpa [hdoc d hd] using hne
      · rw [hog, List.filter_eq_nil_iff.mpr, List.nil_append]
        intro d hd
        simpa [hdiag d hd] using hne

end Setting

/-- The blocks of a template. -/
def templateBlocks (keyword source : Text) : List Block :=
  Block.extract keyword (Lines.ofText (Lines.unifyEnds source))

/-- What the blocks of a template share; the mixins are those of the whole template. -/
def templateSetting (engine : Engine) (globals : Locals) (file source : Text) : Setting :=
  ⟨file, engine, globals, Mixin.table (Lines.ofText (Lines.unifyEnds source))⟩

/-- A run fails exactly at the first block without a name. Otherwise its findings are those of the
blocks alone, in order, and every block has a document, the one diagnostic that its annotation
cannot be read, an example that failed, or asks for no output. -/
theorem generateSource_accounts_for_blocks (engine : Engine) (keyword : Text) (globals : Locals)
    (file source : Text) :
    (∀ missing, generateSource engine keyword globals file source = .error missing ↔
      ∃ before b after, templateBlocks keyword source = before ++ b :: after ∧
        (∀ a ∈ before, ¬ a.Nameless) ∧ b.Nameless ∧ missing = ⟨file, b.line⟩) ∧
    ∀ found, generateSource engine keyword globals file source = .ok found →
      (∃ parts, List.Forall₂ (fun b part =>
          (templateSetting engine globals file source).generateBlocks [b] = .ok part ∧
            part.documents.length ≤ 1) (templateBlocks keyword source) parts ∧
        found.documents = parts.flatMap Findings.documents ∧
        found.diagnostics = parts.flatMap Findings.diagnostics) ∧
      (found.documents.Pairwise fun a b => a.line < b.line) ∧
      ∀ b ∈ templateBlocks keyword source, (∀ d ∈ found.documents, d.line ≠ b.line) →
        (∃ error, Metadata.ofBlock b = .error error ∧
          found.diagnostics.filter (·.line = b.line) = [⟨file, none, b.line, .metadata error⟩]) ∨
        (∃ m, Metadata.ofBlock b = .ok m ∧ m.isSuppressed = true) ∨
        ∃ d ∈ found.diagnostics, d.line = b.line ∧
          ∃ failure record, d.problem = .render failure record := by
  refine ⟨fun missing => Setting.generateBlocks_eq_error_iff, ?_⟩
  intro found h
  obtain ⟨parts, hparts, hdoc, hdiag⟩ := Setting.generateBlocks_eq_ok h
  have hlines := Block.extractFrom_increasing (markerText keyword) 1
    (Lines.ofText (Lines.unifyEnds source))
  refine ⟨⟨parts, ?_, hdoc, hdiag⟩, ?_, ?_⟩
  · exact hparts.imp fun b part hp => ⟨hp, (Setting.generateBlocks_singleton_ok hp).1⟩
  · rw [hdoc]
    exact Setting.Parts.documents_lines hparts hlines
  · intro b hb hnone
    obtain ⟨part, hpart, hpd, hpg⟩ := Setting.Parts.at_line hparts hlines hb
    rw [← hdoc] at hpd
    rw [← hdiag] at hpg
    have hempty : part.documents = [] := by
      rw [← hpd]
      exact List.filter_eq_nil_iff.mpr fun d hd => by simpa using hnone d hd
    rcases Setting.generateBlocks_singleton_trace hpart hempty with
      ⟨error, hm, hg⟩ | hs | ⟨d, hd, hr⟩
    · exact .inl ⟨error, hm, hpg.trans hg⟩
    · exact .inr (.inl hs)
    · have hmem := hpg ▸ hd
      exact .inr (.inr ⟨d, (List.mem_filter.mp hmem).1, by simpa using (List.mem_filter.mp hmem).2, hr⟩)

end TemplateDocs
