import Mathlib
import TemplateDocs.Proofs.Outline.CompactJson
import TemplateDocs.Proofs.Outline.FlowReading

/-!
# How much of a flow collection is read

The scan for the bracket that closes a collection counts every opening bracket outside quotes, also one
inside a plain scalar, where the reader takes it for text. What the reader leaves of the located text is
not looked at again. Here the two are compared: the reader gets to the end of the located text exactly if
the part that it reads is a whole collection to the scan.
-/
namespace TemplateDocs.Outline

open Json (Value)

/-! ### A quoted scalar and the text behind it -/

theorem closeDouble?_rest {t s r : Text} (h : closeDouble? t = some (s, r)) (r' : Text) :
    closeDouble? (s ++ r') = some (s, r') := by
  fun_induction closeDouble? t generalizing s r with
  | case1 => cases h
  | case2 t =>
    cases h
    rfl
  | case3 c t ih =>
    obtain ⟨⟨s', r⟩, hs, h⟩ := Option.map_eq_some_iff.mp h
    cases h
    simp [closeDouble?, ih hs]
  | case4 c t hquote hescape ih =>
    obtain ⟨⟨s', r⟩, hs, h⟩ := Option.map_eq_some_iff.mp h
    cases h
    have hc : c ≠ '\\' := by
      rintro rfl
      cases t with
      | nil => cases hs
      | cons d t => exact hescape d t rfl rfl
    rw [List.cons_append, closeDouble?, ih hs]
    · rfl
    · exact hquote
    · exact fun _ _ hc' => absurd hc' hc

/-- A single quote closes a scalar unless another one follows. -/
theorem closeSingle?_rest {t s r : Text} (h : closeSingle? t = some (s, r)) {r' : Text}
    (hr : r'.head? = r.head?) : closeSingle? (s ++ r') = some (s, r') := by
  fun_induction closeSingle? t generalizing s r with
  | case1 => cases h
  | case2 t ih =>
    obtain ⟨⟨s', r⟩, hs, h⟩ := Option.map_eq_some_iff.mp h
    cases h
    simp [closeSingle?, ih hs hr]
  | case3 t hdouble =>
    cases h
    have hhead : ∀ u, r' ≠ '\'' :: u := by
      rintro u rfl
      obtain ⟨u', hu'⟩ := List.head?_eq_some_iff.mp hr.symm
      exact hdouble u' hu'
    rw [List.singleton_append, closeSingle?]
    exact hhead
  | case4 c t hdouble hquote ih =>
    obtain ⟨⟨s', r⟩, hs, h⟩ := Option.map_eq_some_iff.mp h
    cases h
    rw [List.cons_append, closeSingle?, ih hs hr]
    · rfl
    · exact fun _ hc => absurd hc hquote
    · exact hquote

theorem quoted?_rest {t q r : Text} (h : quoted? t = some (q, r)) {r' : Text}
    (hr : r'.head? = r.head?) : quoted? (q ++ r') = some (q, r') := by
  unfold quoted? at h
  split at h
  · obtain ⟨⟨s, r⟩, hs, h⟩ := Option.map_eq_some_iff.mp h
    cases h
    simp [quoted?, closeDouble?_rest hs]
  · obtain ⟨⟨s, r⟩, hs, h⟩ := Option.map_eq_some_iff.mp h
    cases h
    simp [quoted?, closeSingle?_rest hs hr]
  · cases h

namespace Flow

open Text (trimStart)

/-! ### The scan does not look behind its bracket -/

theorem collection?_rest {depth : Nat} {t s r : Text} (h : collection? depth t = some (s, r)) :
    t = s ++ r ∧ s ≠ [] ∧ ∀ r', collection? depth (s ++ r') = some (s, r') := by
  fun_induction collection? depth t generalizing s r with
  | case1 => cases h
  | case2 depth c t hc hq => cases h
  | case3 depth c t hc q u hq _ ih =>
    obtain ⟨⟨s', r⟩, hs, h⟩ := Option.map_eq_some_iff.mp h
    cases h
    obtain ⟨rfl, hne, hrest⟩ := ih hs
    refine ⟨by rw [List.append_assoc, (quoted?_append hq).1], by simp [hne], fun r' => ?_⟩
    have hhead : (s' ++ r').head? = (s' ++ r).head? := by
      rw [List.head?_append_of_ne_nil _ hne, List.head?_append_of_ne_nil _ hne]
    rw [List.append_assoc, collection?_quoted (quoted?_rest hq hhead), hrest]
    rfl
  | case4 depth c t _ hc ih =>
    obtain ⟨⟨s', r⟩, hs, h⟩ := Option.map_eq_some_iff.mp h
    cases h
    obtain ⟨rfl, -, hrest⟩ := ih hs
    refine ⟨rfl, List.cons_ne_nil _ _, fun r' => ?_⟩
    rw [List.cons_append, collection?_opening hc, hrest]
    rfl
  | case5 depth c t _ _ hc hdepth =>
    cases h
    refine ⟨rfl, List.cons_ne_nil _ _, fun r' => ?_⟩
    rw [List.singleton_append, collection?_closing hc, if_pos hdepth]
  | case6 depth c t _ _ hc hdepth ih =>
    obtain ⟨⟨s', r⟩, hs, h⟩ := Option.map_eq_some_iff.mp h
    cases h
    obtain ⟨rfl, -, hrest⟩ := ih hs
    refine ⟨rfl, List.cons_ne_nil _ _, fun r' => ?_⟩
    rw [List.cons_append, collection?_closing hc, if_neg hdepth, hrest]
    rfl
  | case7 depth c t hq ho hc ih =>
    obtain ⟨⟨s', r⟩, hs, h⟩ := Option.map_eq_some_iff.mp h
    cases h
    obtain ⟨rfl, -, hrest⟩ := ih hs
    refine ⟨rfl, List.cons_ne_nil _ _, fun r' => ?_⟩
    rw [List.cons_append, collection?_other (by simp [hq, ho, hc]), hrest]
    rfl

/-! ### What the scan makes of the text that is read -/

/-- Going from `t` to what follows in it, the scan has counted `n` brackets more. -/
def Passes (n : Nat) (t r : Text) : Prop :=
  ∃ s, t = s ++ r ∧ ∀ depth, collection? (depth + 1) t =
    (collection? (depth + 1 + n) r).map fun p => (s ++ p.1, p.2)

theorem Passes.refl (t : Text) : Passes 0 t t := ⟨[], rfl, fun depth => by simp⟩

theorem Passes.trans {m n : Nat} {t u r : Text} (h : Passes m t u) (h' : Passes n u r) :
    Passes (m + n) t r := by
  obtain ⟨s, rfl, hs⟩ := h
  obtain ⟨s', rfl, hs'⟩ := h'
  refine ⟨s ++ s', by simp, fun depth => ?_⟩
  have hdepth : depth + 1 + m = depth + m + 1 := by omega
  have hsum : depth + m + 1 + n = depth + 1 + (m + n) := by omega
  rw [hs, hdepth, hs', hsum, Option.map_map]
  simp [Function.comp_def]

theorem passes_other {c : Char} (hc : (isQuote c || isOpening c || isClosing c) = false) (r : Text) :
    Passes 0 (c :: r) r := ⟨[c], rfl, fun depth => collection?_other hc (depth + 1) r⟩

theorem passes_opening {c : Char} (hc : isOpening c = true) (r : Text) : Passes 1 (c :: r) r :=
  ⟨[c], rfl, fun depth => collection?_opening hc (depth + 1) r⟩

theorem passes_quoted {t q r : Text} (h : quoted? t = some (q, r)) : Passes 0 t r :=
  ⟨q, (quoted?_append h).1.symm, fun depth => collection?_quoted h (depth + 1)⟩

theorem passes_blanks (t : Text) : Passes 0 t (trimStart t) := by
  induction t with
  | nil => exact .refl []
  | cons c t ih =>
    by_cases hc : Text.isSpace c = true
    · have hne : ∀ d, Text.isSpace d = false → c ≠ d := fun d hd => Text.ne_of_isSpace hd hc
      have hother : (isQuote c || isOpening c || isClosing c) = false := by
        simp [isQuote, isOpening, isClosing, hne '"' rfl, hne '\'' rfl, hne '[' rfl, hne '\x7b' rfl,
          hne ']' rfl, hne '\x7d' rfl]
      have hstart : trimStart (c :: t) = trimStart t := List.dropWhile_cons_of_pos hc
      rw [hstart]
      exact (passes_other hother t).trans ih
    · have hstart : trimStart (c :: t) = c :: t := List.dropWhile_cons_of_neg hc
      rw [hstart]
      exact .refl _

theorem Passes.then_blanks {n : Nat} {t u r : Text} (h : Passes n t u) (hr : trimStart u = r) :
    Passes n t r := hr ▸ h.trans (passes_blanks u)

theorem Passes.after_blanks {n : Nat} {t u r : Text} (h : Passes n u r) (ht : trimStart t = u) :
    Passes n t r := by
  have := (passes_blanks t).trans (ht ▸ h)
  rwa [Nat.zero_add] at this

theorem Passes.after_other {n : Nat} {c : Char} {u r : Text} (h : Passes n u r)
    (hc : (isQuote c || isOpening c || isClosing c) = false) : Passes n (c :: u) r := by
  have := (passes_other hc u).trans h
  rwa [Nat.zero_add] at this

/-- A closed collection within a collection leaves the brackets that were counted too many. -/
theorem passes_bracket {n : Nat} {opening closing : Char} {u r : Text} (ho : isOpening opening = true)
    (hc : isClosing closing = true) (h : Passes n u (closing :: r)) : Passes n (opening :: u) r := by
  obtain ⟨s, rfl, hs⟩ := h
  refine ⟨opening :: (s ++ [closing]), by simp, fun depth => ?_⟩
  have hsub : depth + 1 + 1 + n - 1 = depth + 1 + n := by omega
  rw [collection?_opening ho, hs, collection?_closing hc, if_neg (by omega), hsub, Option.map_map,
    Option.map_map]
  simp [Function.comp_def]

theorem passes_plain {inKey : Bool} {t p r : Text} (h : plainRun inKey t = (p, r))
    (hq : ∀ c ∈ p, isQuote c = false) : Passes (p.countP isOpening) t r := by
  induction t generalizing p with
  | nil =>
    cases h
    exact .refl []
  | cons c t ih =>
    unfold plainRun at h
    split_ifs at h with hend
    · cases h
      exact .refl _
    · obtain ⟨rfl, rfl⟩ := Prod.mk.inj h
      have hrest := ih rfl fun d hd => hq d (List.mem_cons_of_mem _ hd)
      have hclosing : isClosing c = false := by
        simp only [endsPlain, Bool.or_eq_true, not_or, Bool.not_eq_true] at hend
        exact hend.1.2
      rw [List.countP_cons, Nat.add_comm]
      refine Passes.trans ?_ hrest
      split_ifs with hopen
      · exact passes_opening hopen t
      · exact passes_other (by simp [hq c List.mem_cons_self, hopen, hclosing]) t

/-- The opening brackets in texts. -/
def openings (ps : List Text) : Nat := ps.flatten.countP isOpening

theorem openings_append (ps qs : List Text) : openings (ps ++ qs) = openings ps + openings qs := by
  simp [openings]

theorem openings_singleton (p : Text) : openings [p] = p.countP isOpening := by
  simp [openings]

/-- Items and fields are passed up to their closing bracket. -/
def Part.Passed : Part → Nat → Text → Text → Prop
  | .items _, n, t, r | .fields _ _, n, t, r => ∃ c, isClosing c = true ∧ Passes n t (c :: r)
  | _, n, t, r => Passes n t r

/-- Where no plain scalar holds a quote, the scan counts too many brackets by those in plain scalars. -/
theorem Takes.passed {part : Part} {t r : Text} {ps : List Text} (h : Takes part t ps r)
    (hq : ∀ p ∈ ps, ∀ c ∈ p, isQuote c = false) : part.Passed (openings ps) t r := by
  induction h with
  | array h _ ih =>
    obtain ⟨c, hc, hitems⟩ := ih hq
    exact (passes_bracket rfl hc hitems).after_blanks h
  | object h _ ih =>
    obtain ⟨c, hc, hfields⟩ := ih hq
    exact (passes_bracket rfl hc hfields).after_blanks h
  | quoted h => exact (passes_quoted h).after_blanks rfl
  | plain _ hrun =>
    rw [openings_singleton]
    exact (passes_plain hrun (hq _ List.mem_cons_self)).after_blanks rfl
  | itemsEnd h => exact ⟨']', rfl, (Passes.refl _).then_blanks h⟩
  | itemsLast _ _ hend ihv => exact ⟨']', rfl, (ihv hq).then_blanks hend⟩
  | itemsMore _ _ hcomma _ ihv ihr =>
    rw [List.forall_mem_append] at hq
    obtain ⟨c, hc, hrest⟩ := ihr hq.2
    rw [openings_append]
    exact ⟨c, hc, ((ihv hq.1).then_blanks hcomma).trans (hrest.after_other rfl)⟩
  | keyQuoted h => exact passes_quoted h
  | keyPlain _ hrun =>
    rw [openings_singleton]
    exact passes_plain hrun (hq _ List.mem_cons_self)
  | slotValue h _ ih => exact ((ih hq).after_other rfl).after_blanks h
  | slotNull => exact passes_blanks _
  | fieldsEnd h => exact ⟨'\x7d', rfl, (Passes.refl _).then_blanks h⟩
  | fieldsLast _ _ _ _ _ hend ihk ihv =>
    rw [List.forall_mem_append] at hq
    rw [openings_append]
    have hentry := ((ihk hq.1).trans (ihv hq.2)).after_blanks rfl
    exact ⟨'\x7d', rfl, hentry.then_blanks hend⟩
  | fieldsMore _ _ _ _ _ hcomma _ ihk ihv ihr =>
    rw [List.forall_mem_append, List.forall_mem_append] at hq
    obtain ⟨c, hc, hrest⟩ := ihr hq.2
    rw [openings_append, openings_append]
    have hentry := ((ihk hq.1.1).trans (ihv hq.1.2)).after_blanks rfl
    exact ⟨c, hc, (hentry.then_blanks hcomma).trans (hrest.after_other rfl)⟩

/-! ### The located text -/

theorem plainRun_suffix (inKey : Bool) (t : Text) : (plainRun inKey t).2 <:+ t := by
  induction t with
  | nil => exact List.suffix_refl []
  | cons c t ih =>
    unfold plainRun
    split_ifs
    · exact List.suffix_refl _
    · exact ih.trans (List.suffix_cons c t)

theorem suffix_of_trimStart {c : Char} {t r : Text} (h : trimStart t = c :: r) : r <:+ t :=
  (List.suffix_cons c r).trans (h ▸ List.dropWhile_suffix _)

theorem suffix_of_quoted? {t q r : Text} (h : quoted? t = some (q, r)) : r <:+ t :=
  ⟨q, (quoted?_append h).1⟩

theorem Takes.suffix {part : Part} {t r : Text} {ps : List Text} (h : Takes part t ps r) : r <:+ t := by
  have hstart : ∀ t : Text, trimStart t <:+ t := fun t => List.dropWhile_suffix _
  induction h with
  | array h _ ih | object h _ ih | slotValue h _ ih => exact ih.trans (suffix_of_trimStart h)
  | quoted h => exact (suffix_of_quoted? h).trans (hstart _)
  | @plain t p r _ hrun =>
    have := plainRun_suffix false (trimStart t)
    rw [hrun] at this
    exact this.trans (hstart t)
  | itemsEnd h | fieldsEnd h => exact suffix_of_trimStart h
  | itemsLast _ _ hend ihv => exact (suffix_of_trimStart hend).trans ihv
  | itemsMore _ _ hcomma _ ihv ihr => exact (ihr.trans (suffix_of_trimStart hcomma)).trans ihv
  | keyQuoted h => exact suffix_of_quoted? h
  | @keyPlain t p r _ hrun =>
    have := plainRun_suffix true t
    rwa [hrun] at this
  | slotNull => exact hstart _
  | fieldsLast _ _ _ _ _ hend ihk ihv =>
    exact ((suffix_of_trimStart hend).trans ihv).trans (ihk.trans (hstart _))
  | fieldsMore _ _ _ _ _ hcomma _ ihk ihv ihr =>
    exact ((ihr.trans (suffix_of_trimStart hcomma)).trans ihv).trans (ihk.trans (hstart _))

/-- A collection that starts with its bracket is read up to a closing bracket. -/
theorem Takes.passed_collection {c : Char} {t r : Text} {v : Value} {ps : List Text}
    (h : Takes (.value v) (c :: t) ps r) (hc : isOpening c = true)
    (hq : ∀ p ∈ ps, ∀ d ∈ p, isQuote d = false) :
    ∃ d, isClosing d = true ∧ Passes (openings ps) t (d :: r) := by
  have hblank : Text.isSpace c = false ∧ isQuote c = false := by
    simp only [isOpening, Bool.or_eq_true, decide_eq_true_eq] at hc
    rcases hc with rfl | rfl <;> exact ⟨rfl, rfl⟩
  have hstart : trimStart (c :: t) = c :: t := Text.trimStart_of_head (by simpa using hblank.1)
  cases h with
  | array h hitems =>
    rw [hstart] at h
    cases h
    exact hitems.passed hq
  | object h hfields =>
    rw [hstart] at h
    cases h
    exact hfields.passed hq
  | quoted h =>
    rw [hstart] at h
    have := isQuote_of_quoted? h
    simp [hblank.2] at this
  | plain h =>
    have := (h c (by rw [hstart]; rfl)).1
    simp [hc] at this

/-- The reader leaves something of the located text exactly if a plain scalar holds a bracket. -/
theorem rest_eq_nil_iff_openings {c : Char} {t r : Text} {v : Value} {ps : List Text}
    (hc : isOpening c = true) (hfront : collection? 0 (c :: t) = some (c :: t, []))
    (h : Takes (.value v) (c :: t) ps r) (hq : ∀ p ∈ ps, ∀ d ∈ p, isQuote d = false) :
    r = [] ↔ ∀ p ∈ ps, ∀ d ∈ p, isOpening d = false := by
  have hcount : openings ps = 0 ↔ ∀ p ∈ ps, ∀ d ∈ p, isOpening d = false := by
    simp only [openings, List.countP_eq_zero, List.mem_flatten, Bool.not_eq_true]
    exact ⟨fun hall p hp d hd => hall d ⟨p, hp, hd⟩, fun hall d ⟨p, hp, hd⟩ => hall p hp d hd⟩
  obtain ⟨d, hd, s, -, hs⟩ := h.passed_collection hc hq
  have hscan := hs 0
  rw [collection?_opening hc, hscan, collection?_closing hd] at hfront
  rw [← hcount]
  cases hn : openings ps with
  | zero =>
    simp only [hn, Nat.zero_add, Nat.add_zero, le_refl, if_true, Option.map_some, Option.some.injEq,
      Prod.mk.injEq] at hfront
    simp [hfront.2]
  | succ n =>
    -- the scan goes on behind the bracket that the reader stopped at, so something stands there
    have hne : r ≠ [] := by
      rintro rfl
      rw [hn, if_neg (by omega)] at hfront
      simp [collection?] at hfront
    simp [hne]

/-- The reader leaves nothing of the located text exactly if what it reads is located by itself. -/
theorem rest_eq_nil_iff_located {front taken r : Text} (hfront : collection? 0 front = some (front, []))
    (htaken : front = taken ++ r) : r = [] ↔ collection? 0 taken = some (taken, []) := by
  constructor
  · rintro rfl
    rw [List.append_nil] at htaken
    rwa [← htaken]
  · intro h
    have hlonger := (collection?_rest h).2.2 r
    rw [← htaken, hfront, Option.some.injEq, Prod.mk.injEq] at hlonger
    exact hlonger.2.symm

end Flow

/-- What is gathered is found in the text and what is added to it. -/
theorem complete_of_gathered {complete : Text → Option (Text × Text)} {buffer front trailing : Text}
    {ls left : List Line} (h : gathered complete buffer ls = some (front, trailing, left)) :
    ∃ more, complete (buffer ++ more) = some (front, trailing) := by
  induction ls generalizing buffer with
  | nil =>
    cases hc : complete buffer with
    | none => simp [gathered_nil hc] at h
    | some p =>
      simp only [gathered_of_some hc, Option.some.injEq, Prod.mk.injEq] at h
      exact ⟨[], by rw [List.append_nil, hc, ← h.1, ← h.2.1]⟩
  | cons l rest ih =>
    cases hc : complete buffer with
    | none =>
      rw [gathered_cons hc] at h
      obtain ⟨more, hmore⟩ := ih h
      exact ⟨' ' :: l.text ++ more, by rw [← List.append_assoc, hmore]⟩
    | some p =>
      simp only [gathered_of_some hc, Option.some.injEq, Prod.mk.injEq] at h
      exact ⟨[], by rw [List.append_nil, hc, ← h.1, ← h.2.1]⟩

/-- A collection that is read was located first. The reader gets to the end of the located text exactly
if the part that it takes is located by itself. Where no plain scalar holds a quote, it gets there
exactly if none holds an opening bracket. -/
theorem readFlow_whole_iff {c : Char} {t : Text} {line : Line} {ls : List Line} {found : Read Value ls}
    (hc : Flow.isOpening c = true) (h : readFlow (c :: t) line ls = .ok found) :
    ∃ front trailing, gathered (Flow.collection? 0) (c :: t) ls = some (front, trailing, found.rest) ∧
      ∃ w, Flow.readValue front = .ok w ∧ w.value = found.value ∧
      ∃ taken plains, front = taken ++ w.rest ∧ Flow.Takes (.value w.value) front plains w.rest ∧
        (w.rest = [] ↔ Flow.collection? 0 taken = some (taken, [])) ∧
        ((∀ p ∈ plains, ∀ d ∈ p, Flow.isQuote d = false) →
          (w.rest = [] ↔ ∀ p ∈ plains, ∀ d ∈ p, Flow.isOpening d = false)) := by
  have hparts := readFlow_parts (c :: t) line ls
  rw [h] at hparts
  obtain ⟨front, trailing, hfound, hread, -⟩ := finish_ok hparts.symm
  obtain ⟨more, hmore⟩ := complete_of_gathered hfound
  obtain ⟨hbuffer, hne, hrest⟩ := Flow.collection?_rest hmore
  have hfront : Flow.collection? 0 front = some (front, []) := by simpa using hrest []
  obtain ⟨u, rfl⟩ : ∃ u, front = c :: u := by
    obtain ⟨d, u, rfl⟩ := List.exists_cons_of_ne_nil hne
    rw [List.cons_append, List.cons_append, List.cons.injEq] at hbuffer
    exact ⟨u, by rw [hbuffer.1]⟩
  cases hw : Flow.readValue (c :: u) with
  | error e => simp [Flow.read, hw, Except.map] at hread
  | ok w =>
    simp only [Flow.read, hw, Except.map, Except.ok.injEq] at hread
    obtain ⟨plains, htakes⟩ := Flow.takes_of_readValue hw
    obtain ⟨taken, htaken⟩ := htakes.suffix
    exact ⟨c :: u, trailing, hfound, w, hw, hread, taken, plains, htaken.symm, htakes,
      Flow.rest_eq_nil_iff_located hfront htaken.symm, Flow.rest_eq_nil_iff_openings hc hfront htakes⟩

/-- A collection with a bracket in quotes, a doubled quote and collections inside. -/
def nestedFlow : Text := '[' :: "a, \x7bk: \"x]\", 'it''s': [b, c]\x7d]".toList

theorem readFlow_whole_iff_nestedFlow :
    ∃ (found : Read Value []) (w : Flow.Read Value nestedFlow),
      readFlow nestedFlow (Line.of 1 nestedFlow) [] = .ok found ∧
      Flow.readValue nestedFlow = .ok w ∧ w.value = found.value ∧ w.rest = [] ∧
      ∃ plains, Flow.Takes (.value w.value) nestedFlow plains w.rest ∧
        ((∀ p ∈ plains, ∀ d ∈ p, Flow.isQuote d = false) →
          ∀ p ∈ plains, ∀ d ∈ p, Flow.isOpening d = false) := by
  have hscan : Flow.collection? 0 nestedFlow = some (nestedFlow, []) := by decide +kernel
  have hread : (readFlow nestedFlow (Line.of 1 nestedFlow) []).isOk = true := by decide +kernel
  have hrest : (Flow.readValue nestedFlow).toOption.map Flow.Read.rest = some [] := by decide +kernel
  cases hfound : readFlow nestedFlow (Line.of 1 nestedFlow) [] with
  | error e =>
    rw [hfound] at hread
    cases hread
  | ok found =>
    obtain ⟨front, trailing, hgathered, w, hw, hvalue, -, plains, -, htakes, -, hiff⟩ :=
      readFlow_whole_iff rfl hfound
    have hfront : front = nestedFlow := by
      have := (gathered_of_some hscan []).symm.trans hgathered
      rw [Option.some.injEq, Prod.mk.injEq] at this
      exact this.1.symm
    subst hfront
    rw [hw] at hrest
    have hnil : w.rest = [] := Option.some.inj hrest
    exact ⟨found, w, rfl, hw, hvalue, hnil, plains, htakes, fun hq => (hiff hq).mp hnil⟩

/-- A bracket inside a plain scalar. -/
def bracketFlow : Text := '[' :: "a[b], c]".toList

/-- The reader stops at the first closing bracket, the scan at the second one; what stands between them
is lost. -/
theorem readFlow_drops_bracketFlow :
    ¬ ∀ (c : Char) (t : Text) (line : Line) (ls : List Line) (found : Read Value ls)
      (front trailing : Text) (w : Flow.Read Value front), Flow.isOpening c = true →
      readFlow (c :: t) line ls = .ok found →
      gathered (Flow.collection? 0) (c :: t) ls = some (front, trailing, found.rest) →
      Flow.readValue front = .ok w → w.rest = [] := by
  intro hall
  have hscan : Flow.collection? 0 bracketFlow = some (bracketFlow, []) := by decide +kernel
  have hread : (readFlow bracketFlow (Line.of 1 bracketFlow) []).toOption.map Read.rest = some [] := by
    decide +kernel
  have hrest : (Flow.readValue bracketFlow).toOption.map Flow.Read.rest = some ", c]".toList := by
    decide +kernel
  cases hfound : readFlow bracketFlow (Line.of 1 bracketFlow) [] with
  | error e =>
    rw [hfound] at hread
    cases hread
  | ok found =>
    cases hw : Flow.readValue bracketFlow with
    | error e =>
      rw [hw] at hrest
      cases hrest
    | ok w =>
      rw [hfound] at hread
      rw [hw] at hrest
      have hleft : found.rest = [] := Option.some.inj hread
      have hdropped : w.rest = ", c]".toList := Option.some.inj hrest
      have hgathered : gathered (Flow.collection? 0) bracketFlow [] =
          some (bracketFlow, [], found.rest) := by
        rw [hleft]
        exact gathered_of_some hscan []
      rw [hall _ _ _ _ found _ _ w rfl hfound hgathered hw] at hdropped
      cases hdropped

end TemplateDocs.Outline
