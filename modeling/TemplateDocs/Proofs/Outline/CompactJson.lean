import Mathlib
import TemplateDocs.Proofs.Outline.Entries
import TemplateDocs.Proofs.Outline.Quoted
import TemplateDocs.Proofs.Outline.Words

/-!
# Compact JSON is a flow collection

Two scans go over a flow collection: one looks for the bracket that closes it, one reads it. On the
compact text of a value both end at its last character, and what is read is the value.
-/
namespace TemplateDocs.Outline.Flow

open Json (Value Fields Canonical compact)
open Text (trimStart isSpace)

/-! ### The readers without their bounds -/

def Read.parts {α : Type} {t : Text} (r : Read α t) : α × Text := (r.value, r.rest)

/-- The value at the front and what follows it. -/
def takeValue (t : Text) : Except Fault (Value × Text) := (readValue t).map Read.parts

def takeItems (t : Text) : Except Fault (List Value × Text) := (readItems t).map Read.parts

def takeFields (acc : Fields) (t : Text) : Except Fault (Fields × Text) :=
  (readFields acc t).map Read.parts

theorem takeValue_array {t r : Text} (h : trimStart t = '[' :: r) :
    takeValue t = (takeItems r).map fun p => (.array p.1, p.2) := by
  unfold takeValue takeItems
  rw [readValue]
  split
  · next r' h' =>
    obtain rfl : r = r' := by simpa [h] using h'
    cases readItems r <;> rfl
  · next r' h' => simp [h] at h'
  · next hno _ => exact absurd h (hno r)

theorem takeValue_object {t r : Text} (h : trimStart t = '\x7b' :: r) :
    takeValue t = (takeFields [] r).map fun p => (.object p.1, p.2) := by
  unfold takeValue takeFields
  rw [readValue]
  split
  · next r' h' => simp [h] at h'
  · next r' h' =>
    obtain rfl : r = r' := by simpa [h] using h'
    cases readFields [] r <;> rfl
  · next hno => exact absurd h (hno r)

theorem takeValue_scalar {t : Text} (h : ∀ c ∈ (trimStart t).head?, isOpening c = false) :
    takeValue t =
      if ((trimStart t).head?.map isQuote).getD false then
        ((quotedText (trimStart t)).map Read.parts).map fun p => (.string p.1, p.2)
      else
        .ok (resolve (Text.trim (plainRun false (trimStart t)).1), (plainRun false (trimStart t)).2) := by
  unfold takeValue
  rw [readValue]
  split
  · next r h' => simpa [isOpening] using h '[' (by simp [h'])
  · next r h' => simpa [isOpening] using h '\x7b' (by simp [h'])
  · dsimp only
    split_ifs
    · cases quotedText (trimStart t) <;> rfl
    · rfl

theorem quotedText_parts {q r s : Text} {t : Text} (hq : quoted? t = some (q, r))
    (hs : unquote q = .ok s) : (quotedText t).map Read.parts = .ok (s, r) := by
  unfold quotedText
  split
  · next h => simp [hq] at h
  · next q' r' h =>
    obtain ⟨rfl, rfl⟩ : q = q' ∧ r = r' := by simpa [hq] using h
    simp [unquoted, hs, Except.map, Read.parts]

theorem takeItems_nil {t r : Text} (h : trimStart t = ']' :: r) : takeItems t = .ok ([], r) := by
  unfold takeItems
  rw [readItems]
  split
  · next r' h' =>
    obtain rfl : r = r' := by simpa [h] using h'
    rfl
  · next hno => exact absurd h (hno r)

theorem takeItems_cons {t rest : Text} {v : Value} (h : ∀ c ∈ (trimStart t).head?, c ≠ ']')
    (hv : takeValue t = .ok (v, rest)) :
    takeItems t =
      match trimStart rest with
      | ',' :: r => (takeItems r).map fun p => (v :: p.1, p.2)
      | ']' :: r => .ok ([v], r)
      | _ => .error .expectedItemEnd := by
  unfold takeItems
  rw [readItems]
  split
  · next r h' => exact absurd rfl (h ']' (by simp [h']))
  · unfold takeValue at hv
    cases hread : readValue t with
    | error e => simp [hread, Except.map] at hv
    | ok q =>
      simp only [hread, Except.map, Except.ok.injEq, Read.parts, Prod.mk.injEq] at hv
      obtain ⟨rfl, rfl⟩ := hv
      dsimp only
      split
      · next r h' =>
        simp only [h']
        cases readItems r <;> rfl
      · next r h' =>
        simp only [h']
        rfl
      · next hcomma hclose =>
        split
        · next r h' => exact absurd h' (hcomma r)
        · next r h' => exact absurd h' (hclose r)
        · rfl

theorem takeFields_nil {acc : Fields} {t r : Text} (h : trimStart t = '\x7d' :: r) :
    takeFields acc t = .ok (acc, r) := by
  unfold takeFields
  rw [readFields]
  split
  · next r' h' =>
    obtain rfl : r = r' := by simpa [h] using h'
    rfl
  · next hno => exact absurd h (hno r)

theorem takeFields_cons {acc : Fields} {t k r rest : Text} {v : Value}
    (h : ∀ c ∈ (trimStart t).head?, c ≠ '\x7d')
    (hk : (key (trimStart t)).map Read.parts = .ok (k, ':' :: r)) (hne : k ≠ [])
    (hv : takeValue r = .ok (v, rest)) (hd : Fields.has k acc = false) :
    takeFields acc t =
      match trimStart rest with
      | ',' :: r => takeFields (Fields.insert k v acc) r
      | '\x7d' :: r => .ok (Fields.insert k v acc, r)
      | _ => .error .expectedFieldEnd := by
  unfold takeFields
  rw [readFields]
  split
  · next r h' => exact absurd rfl (h '\x7d' (by simp [h']))
  · dsimp only
    cases hkey : key (trimStart t) with
    | error e => simp [hkey, Except.map] at hk
    | ok q =>
      simp only [hkey, Except.map, Except.ok.injEq, Read.parts, Prod.mk.injEq] at hk
      obtain ⟨rfl, hrest⟩ := hk
      have htrim : trimStart q.rest = ':' :: r := by
        rw [hrest]
        rfl
      dsimp only
      rw [if_neg hne]
      unfold takeValue at hv
      cases hread : readValue r with
      | error e => simp [hread, Except.map] at hv
      | ok w =>
        simp only [hread, Except.map, Except.ok.injEq, Read.parts, Prod.mk.injEq] at hv
        obtain ⟨rfl, rfl⟩ := hv
        -- The reader looks for the colon in a match of its own, once for each outcome.
        split
        · next e he =>
          split at he
          · next r' h' =>
            obtain rfl : r = r' := by simpa [htrim] using h'
            rw [hread] at he
            cases he
          · next hno => exact absurd htrim (hno r)
        · next u hu =>
          obtain ⟨hval, hr⟩ : u.value = w.value ∧ u.rest = w.rest := by
            split at hu
            · next r' h' =>
              obtain rfl : r = r' := by simpa [htrim] using h'
              rw [hread] at hu
              cases hu
              exact ⟨rfl, rfl⟩
            · next hno => exact absurd htrim (hno r)
          rw [hd, if_neg (by simp)]
          rw [← hval, ← hr]
          split
          · next r h' =>
            simp only [h']
            cases readFields (Fields.insert q.value u.value acc) r <;> rfl
          · next r h' =>
            simp only [h']
            rfl
          · next hcomma hclose =>
            split
            · next r h' => exact absurd h' (hcomma r)
            · next r h' => exact absurd h' (hclose r)
            · rfl

/-! ### Where a collection ends -/

theorem isQuote_of_quoted? {c : Char} {t : Text} {p : Text × Text} (h : quoted? (c :: t) = some p) :
    isQuote c = true := by
  by_contra hc
  simp only [isQuote, Bool.or_eq_true, decide_eq_true_eq, not_or] at hc
  rw [quoted?] at h
  · cases h
  · rintro t' ⟨⟩
    exact hc.1 rfl
  · rintro t' ⟨⟩
    exact hc.2 rfl

/-- The scan goes over a quoted scalar as a whole. -/
theorem collection?_quoted {t q r : Text} (h : quoted? t = some (q, r)) (depth : Nat) :
    collection? depth t = (collection? depth r).map fun p => (q ++ p.1, p.2) := by
  cases t with
  | nil => cases h
  | cons c t =>
    rw [collection?, if_pos (isQuote_of_quoted? h)]
    split
    · next h' => simp [h] at h'
    · next q' r' h' =>
      obtain ⟨rfl, rfl⟩ : q = q' ∧ r = r' := by simpa [h] using h'
      rfl

theorem collection?_other {c : Char} (hc : (isQuote c || isOpening c || isClosing c) = false)
    (depth : Nat) (t : Text) :
    collection? depth (c :: t) = (collection? depth t).map fun p => (c :: p.1, p.2) := by
  simp only [Bool.or_eq_false_iff] at hc
  rw [collection?]
  simp [hc]

theorem collection?_opening {c : Char} (hc : isOpening c = true) (depth : Nat) (t : Text) :
    collection? depth (c :: t) = (collection? (depth + 1) t).map fun p => (c :: p.1, p.2) := by
  have hq : isQuote c = false := by
    simp only [isOpening, Bool.or_eq_true, decide_eq_true_eq] at hc
    rcases hc with rfl | rfl <;> rfl
  rw [collection?]
  simp [hc, hq]

theorem collection?_closing {c : Char} (hc : isClosing c = true) (depth : Nat) (t : Text) :
    collection? depth (c :: t) =
      if depth ≤ 1 then some ([c], t)
      else (collection? (depth - 1) t).map fun p => (c :: p.1, p.2) := by
  have hq : isQuote c = false ∧ isOpening c = false := by
    simp only [isClosing, Bool.or_eq_true, decide_eq_true_eq] at hc
    rcases hc with rfl | rfl <;> exact ⟨rfl, rfl⟩
  rw [collection?]
  simp [hc, hq]

/-- Inside a collection the text is passed over as a whole. -/
def Balanced (t : Text) : Prop :=
  ∀ depth rest, collection? (depth + 1) (t ++ rest) =
    (collection? (depth + 1) rest).map fun p => (t ++ p.1, p.2)

theorem Balanced.nil : Balanced [] := by
  intro depth rest
  simp

theorem Balanced.append {s t : Text} (hs : Balanced s) (ht : Balanced t) : Balanced (s ++ t) := by
  intro depth rest
  rw [List.append_assoc, hs, ht, Option.map_map]
  simp [Function.comp_def]

theorem Balanced.cons {c : Char} {t : Text} (hc : (isQuote c || isOpening c || isClosing c) = false)
    (ht : Balanced t) : Balanced (c :: t) := by
  intro depth rest
  rw [List.cons_append, collection?_other hc, ht, Option.map_map]
  rfl

theorem Balanced.quoted {t : Text} (h : ∀ rest, quoted? (t ++ rest) = some (t, rest)) : Balanced t :=
  fun depth rest => collection?_quoted (h rest) (depth + 1)

variable {opening closing : Char} (ho : isOpening opening = true) (hc : isClosing closing = true)

include ho hc

theorem Balanced.bracket {t : Text} (ht : Balanced t) : Balanced (opening :: (t ++ [closing])) := by
  intro depth rest
  have hform : opening :: (t ++ [closing]) ++ rest = opening :: (t ++ closing :: rest) := by simp
  rw [hform, collection?_opening ho, ht, collection?_closing hc, if_neg (by omega),
    Nat.add_sub_cancel]
  simp [Option.map_map, Function.comp_def]

/-- A collection ends at its own closing bracket. -/
theorem Balanced.collection? {t : Text} (ht : Balanced t) (rest : Text) :
    Flow.collection? 0 (opening :: (t ++ closing :: rest)) =
      some (opening :: (t ++ [closing]), rest) := by
  rw [collection?_opening ho, ht, collection?_closing hc]
  rfl

omit ho hc

/-! ### The compact text of a value -/

/-- The control characters that have an escape of their own, and all others that are none. -/
def Escapable (s : Text) : Prop :=
  ∀ c ∈ s, 32 ≤ c.toNat ∨ c ∈ ['\x08', '\t', '\n', '\x0c', '\r']

instance : DecidablePred Escapable := fun s => List.decidableBAll _ s

/-- A key of a flow mapping is not empty. -/
def FlowKey (k : Text) : Prop := k ≠ [] ∧ Escapable k

instance : DecidablePred FlowKey := fun _ => inferInstanceAs (Decidable (_ ∧ _))

theorem compactItems_eq_map (items : List Value) : Json.compactItems items = items.map compact := by
  induction items with
  | nil => rfl
  | cons v items ih => simp [Json.compactItems, ih]

/-- The text of an entry. -/
def compactField (f : Text × Value) : Text := Json.quote f.1 ++ ':' :: compact f.2

theorem compactFields_eq_map (fields : Fields) :
    Json.compactFields fields = fields.map compactField := by
  induction fields with
  | nil => rfl
  | cons f fields ih => simp [Json.compactFields, compactField, ih]

theorem compact_array (items : List Value) :
    compact (.array items) = '[' :: (Text.join [','] (items.map compact) ++ [']']) := by
  rw [compact, compactItems_eq_map]

theorem compact_object (fields : Fields) :
    compact (.object fields) = '\x7b' :: (Text.join [','] (fields.map compactField) ++ ['\x7d']) := by
  rw [compact, compactFields_eq_map]

theorem codes_escapeChar {c : Char} (h : 32 ≤ c.toNat ∨ c ∈ ['\x08', '\t', '\n', '\x0c', '\r']) :
    Codes Json.escapeChar c := by
  unfold Codes Json.escapeChar
  split_ifs with h1 h2 h3 h4 h5 h6 h7 h8
  · exact .inr ⟨'"', by simp, by decide, by simp [h1, escaped?]⟩
  · exact .inr ⟨'\\', by simp, by decide, by simp [h2, escaped?]⟩
  · exact .inr ⟨'n', by simp, by decide, by simp [h3, escaped?]⟩
  · exact .inr ⟨'r', by simp, by decide, by simp [h4, escaped?]⟩
  · exact .inr ⟨'t', by simp, by decide, by simp [h5, escaped?]⟩
  · exact .inr ⟨'b', by simp, by decide, by simp [h6, escaped?]⟩
  · exact .inr ⟨'f', by simp, by decide, by simp [h7, escaped?]⟩
  · simp [h3, h4, h5, h6, h7] at h
    omega
  · exact .inl ⟨rfl, h1, h2⟩

theorem Escapable.codes {s : Text} (h : Escapable s) : ∀ c ∈ s, Codes Json.escapeChar c :=
  fun c hc => codes_escapeChar (h c hc)

theorem quoted?_quote {s : Text} (h : Escapable s) (rest : Text) :
    quoted? (Json.quote s ++ rest) = some (Json.quote s, rest) := quoted?_encased h.codes rest

theorem unquote_quote {s : Text} (h : Escapable s) : unquote (Json.quote s) = .ok s :=
  unquote_encased h.codes

theorem balanced_word {w : Text} (h : ∀ c ∈ w, isPlainChar c = true) : Balanced w := by
  induction w with
  | nil => exact .nil
  | cons c w ih =>
    have hc := h c (by simp)
    refine .cons ?_ (ih fun d hd => h d (by simp [hd]))
    have hne : ∀ d, isPlainChar d = false → c ≠ d := fun d => ne_of_isPlainChar hc
    simp [isQuote, isOpening, isClosing, hne '"' rfl, hne '\'' rfl, hne '[' rfl, hne '\x7b' rfl,
      hne ']' rfl, hne '\x7d' rfl]

theorem balanced_join {ts : List Text} (h : ∀ t ∈ ts, Balanced t) : Balanced (Text.join [','] ts) := by
  induction ts with
  | nil => exact .nil
  | cons s ts ih =>
    have ih := ih fun t ht => h t (by simp [ht])
    have hs := h s (by simp)
    cases ts with
    | nil => rwa [Text.join_singleton]
    | cons t ts =>
      rw [Text.join_cons_cons]
      exact hs.append (ih.cons rfl)

theorem balanced_quote {s : Text} (h : Escapable s) : Balanced (Json.quote s) :=
  .quoted (quoted?_quote h)

theorem balanced_compact {v : Value} (h : Canonical Escapable FlowKey v) : Balanced (compact v) := by
  induction h with
  | plain h =>
    obtain ⟨hword, -, hcompact⟩ := plain_scalar h
    rw [hcompact]
    exact balanced_word hword.chars
  | string h => exact balanced_quote h
  | array h ih =>
    rw [compact_array]
    exact .bracket rfl rfl (balanced_join (List.forall_mem_map.mpr ih))
  | object sorted keys h ih =>
    rw [compact_object]
    refine .bracket rfl rfl (balanced_join (List.forall_mem_map.mpr fun f hf => ?_))
    exact (balanced_quote (keys f hf).2).append ((ih f hf).cons rfl)

/-- A value can end before the text. -/
def Ends (rest : Text) : Prop := ∀ c ∈ rest.head?, c = ',' ∨ isClosing c = true

theorem plainRun_word {w rest : Text} (h : ∀ c ∈ w, isPlainChar c = true) (hrest : Ends rest) :
    plainRun false (w ++ rest) = (w, rest) := by
  induction w with
  | nil =>
    cases rest with
    | nil => rfl
    | cons c rest =>
      have hc : endsPlain false c rest = true := by
        rcases hrest c (by simp) with hc | hc <;> simp [endsPlain, hc]
      rw [List.nil_append, plainRun, if_pos hc]
  | cons c w ih =>
    have hne : ∀ d, isPlainChar d = false → c ≠ d := fun d => ne_of_isPlainChar (h c (by simp))
    have hc : endsPlain false c (w ++ rest) = false := by
      simp [endsPlain, isClosing, hne ',' rfl, hne ']' rfl, hne '\x7d' rfl, hne ':' rfl]
    rw [List.cons_append, plainRun, hc, ih fun d hd => h d (by simp [hd])]
    rfl

theorem takeValue_word {w rest : Text} (h : PlainWord w) (hrest : Ends rest) :
    takeValue (w ++ rest) = .ok (resolve w, rest) := by
  obtain ⟨c, w', rfl⟩ := List.exists_cons_of_ne_nil h.ne_nil
  have hne : ∀ d, isPlainChar d = false → c ≠ d := fun d => ne_of_isPlainChar (h.chars c (by simp))
  have hstart : trimStart (c :: w' ++ rest) = c :: w' ++ rest :=
    Text.trimStart_of_head (by simpa using isSpace_of_isPlainChar (h.chars c (by simp)))
  have htrim : Text.trim (c :: w') = c :: w' :=
    Text.trim_of_tight (Text.tight_of_no_space fun d hd => isSpace_of_isPlainChar (h.chars d hd))
  have hquote : isQuote c = false := by simp [isQuote, hne '"' rfl, hne '\'' rfl]
  have hopen : isOpening c = false := by simp [isOpening, hne '[' rfl, hne '\x7b' rfl]
  rw [takeValue_scalar (by rw [hstart]; simpa using hopen), hstart, plainRun_word h.chars hrest, htrim]
  simp [hquote]

theorem takeValue_quote {s : Text} (h : Escapable s) (rest : Text) :
    takeValue (Json.quote s ++ rest) = .ok (.string s, rest) := by
  have hstart : trimStart (Json.quote s ++ rest) = Json.quote s ++ rest :=
    Text.trimStart_of_head (by simp [Json.quote]; decide)
  rw [takeValue_scalar (by rw [hstart]; simp [Json.quote, isOpening]), hstart,
    quotedText_parts (quoted?_quote h rest) (unquote_quote h)]
  rfl

/-- A value is read off the front of its compact text and whatever may follow it. -/
def ReadsBack (v : Value) : Prop := ∀ rest, Ends rest → takeValue (compact v ++ rest) = .ok (v, rest)

theorem compact_head {v : Value} (h : Canonical Escapable FlowKey v) :
    ∃ c t, compact v = c :: t ∧ isSpace c = false ∧ isClosing c = false := by
  cases h with
  | plain h =>
    obtain ⟨hword, -, hcompact⟩ := plain_scalar h
    obtain ⟨c, t, hct⟩ := List.exists_cons_of_ne_nil hword.ne_nil
    have hc := hword.chars c (by simp [hct])
    have hne : ∀ d, isPlainChar d = false → c ≠ d := fun d => ne_of_isPlainChar hc
    exact ⟨c, t, hcompact.trans hct, isSpace_of_isPlainChar hc,
      by simp [isClosing, hne ']' rfl, hne '\x7d' rfl]⟩
  | string h => exact ⟨_, _, rfl, rfl, rfl⟩
  | array h => exact ⟨_, _, compact_array _, rfl, rfl⟩
  | object sorted keys h => exact ⟨_, _, compact_object _, rfl, rfl⟩

theorem takeItems_compact {v : Value} (h : Canonical Escapable FlowKey v) (hv : ReadsBack v)
    {text : Text} (htext : Ends text) :
    takeItems (compact v ++ text) =
      match trimStart text with
      | ',' :: r => (takeItems r).map fun p => (v :: p.1, p.2)
      | ']' :: r => .ok ([v], r)
      | _ => .error .expectedItemEnd := by
  obtain ⟨c, t, hct, hspace, hclosing⟩ := compact_head h
  refine takeItems_cons ?_ (hv text htext)
  intro d hd
  rw [hct, Text.trimStart_of_head (by simpa using hspace)] at hd
  obtain rfl : c = d := by simpa using hd
  rintro rfl
  cases hclosing

theorem takeItems_join {items : List Value} (h : ∀ v ∈ items, Canonical Escapable FlowKey v)
    (hv : ∀ v ∈ items, ReadsBack v) (rest : Text) :
    takeItems (Text.join [','] (items.map compact) ++ ']' :: rest) = .ok (items, rest) := by
  induction items with
  | nil => exact takeItems_nil rfl
  | cons v items ih =>
    have ih := ih (fun v hv => h v (by simp [hv])) fun w hw => hv w (by simp [hw])
    have hfirst := fun text => @takeItems_compact v (h v (by simp)) (hv v (by simp)) text
    cases items with
    | nil =>
      rw [List.map_singleton, Text.join_singleton, hfirst _ (by simp [Ends, isClosing])]
      rfl
    | cons w items =>
      rw [List.map_cons, List.map_cons, Text.join_cons_cons, List.append_assoc, hfirst _ (by simp [Ends])]
      change (takeItems (Text.join [','] ((w :: items).map compact) ++ ']' :: rest)).map _ = _
      rw [ih]
      rfl

theorem key_quote {k : Text} (h : Escapable k) (rest : Text) :
    (key (Json.quote k ++ rest)).map Read.parts = .ok (k, rest) := by
  have hhead : ((Json.quote k ++ rest).head?.map isQuote).getD false = true := by
    simp [Json.quote, isQuote]
  rw [key, if_pos hhead]
  exact quotedText_parts (quoted?_quote h rest) (unquote_quote h)

theorem takeFields_compactField {acc : Fields} {k : Text} {v : Value} (hk : FlowKey k)
    (hv : ReadsBack v) (hacc : ∀ f ∈ acc, Text.precedes f.1 k) {text : Text} (htext : Ends text) :
    takeFields acc (compactField (k, v) ++ text) =
      match trimStart text with
      | ',' :: r => takeFields (acc ++ [(k, v)]) r
      | '\x7d' :: r => .ok (acc ++ [(k, v)], r)
      | _ => .error .expectedFieldEnd := by
  have hform : compactField (k, v) ++ text = Json.quote k ++ ':' :: (compact v ++ text) := by
    simp [compactField]
  have hstart : trimStart (Json.quote k ++ ':' :: (compact v ++ text)) =
      Json.quote k ++ ':' :: (compact v ++ text) :=
    Text.trimStart_of_head (by simp [Json.quote]; decide)
  have hkey := key_quote hk.2 (':' :: (compact v ++ text))
  rw [← hstart] at hkey
  rw [hform, takeFields_cons (by rw [hstart]; simp [Json.quote]) hkey hk.1 (hv text htext)
    (Fields.has_eq_false hacc), Fields.insert_last hacc]

theorem takeFields_join {fields : Fields} (hk : ∀ f ∈ fields, FlowKey f.1)
    (hv : ∀ f ∈ fields, ReadsBack f.2) {acc : Fields}
    (hsorted : ((acc ++ fields).map Prod.fst).Pairwise (Text.precedes · ·)) (rest : Text) :
    takeFields acc (Text.join [','] (fields.map compactField) ++ '\x7d' :: rest) =
      .ok (acc ++ fields, rest) := by
  induction fields generalizing acc with
  | nil =>
    rw [List.append_nil]
    exact takeFields_nil rfl
  | cons f fields ih =>
    obtain ⟨k, v⟩ := f
    have ih := @ih (fun f hf => hk f (by simp [hf])) (fun f hf => hv f (by simp [hf]))
      (acc ++ [(k, v)]) (by simpa using hsorted)
    have hacc := Fields.precedes_of_sorted hsorted
    have hfirst := fun text =>
      @takeFields_compactField acc k v (hk (k, v) (by simp)) (hv (k, v) (by simp)) hacc text
    cases fields with
    | nil =>
      rw [List.map_singleton, Text.join_singleton, hfirst _ (by simp [Ends, isClosing])]
      rfl
    | cons g fields =>
      rw [List.map_cons, List.map_cons, Text.join_cons_cons, List.append_assoc, hfirst _ (by simp [Ends])]
      change takeFields (acc ++ [(k, v)])
        (Text.join [','] ((g :: fields).map compactField) ++ '\x7d' :: rest) = _
      rw [ih]
      simp

theorem readsBack {v : Value} (h : Canonical Escapable FlowKey v) : ReadsBack v := by
  induction h with
  | plain h =>
    obtain ⟨hword, hresolve, hcompact⟩ := plain_scalar h
    intro rest hrest
    rw [hcompact, takeValue_word hword hrest, hresolve]
  | string h => exact fun rest _ => takeValue_quote h rest
  | @array items h ih =>
    intro rest _
    rw [compact_array, List.cons_append, List.append_assoc, takeValue_array rfl]
    change (takeItems (Text.join [','] (items.map compact) ++ ']' :: rest)).map _ = _
    rw [takeItems_join h ih]
    rfl
  | @object fields sorted keys h ih =>
    intro rest _
    rw [compact_object, List.cons_append, List.append_assoc, takeValue_object rfl]
    change (takeFields [] (Text.join [','] (fields.map compactField) ++ '\x7d' :: rest)).map _ = _
    rw [takeFields_join keys ih (by simpa using sorted)]
    rfl

/-! ### Whole documents -/

theorem not_mem_join {c : Char} (hc : c ≠ ',') {ts : List Text} (h : ∀ t ∈ ts, c ∉ t) :
    c ∉ Text.join [','] ts := by
  induction ts with
  | nil => simp [Text.join]
  | cons s ts ih =>
    have ih := ih fun t ht => h t (by simp [ht])
    have hs := h s (by simp)
    cases ts with
    | nil => rwa [Text.join_singleton]
    | cons t ts =>
      simp [Text.join_cons_cons, hs, hc, ih]

theorem newline_not_mem_quote {s : Text} (h : Escapable s) : '\n' ∉ Json.quote s := by
  have hchar : ∀ c ∈ s, '\n' ∉ Json.escapeChar c := by
    intro c hc
    unfold Json.escapeChar
    split_ifs with h1 h2 h3 h4 h5 h6 h7 h8
    iterate 7 decide
    · rcases h c hc with hle | hm
      · omega
      · simp [h3, h4, h5, h6, h7] at hm
    · simpa using Ne.symm h3
  simp only [Json.quote, List.mem_cons, List.mem_append, List.mem_flatMap, List.not_mem_nil, or_false,
    not_or]
  exact ⟨by decide, fun ⟨c, hc, hm⟩ => hchar c hc hm, by decide⟩

theorem newline_not_mem_compact {v : Value} (h : Canonical Escapable FlowKey v) : '\n' ∉ compact v := by
  induction h with
  | plain h =>
    obtain ⟨hword, -, hcompact⟩ := plain_scalar h
    rw [hcompact]
    exact hword.not_mem rfl
  | string h => exact newline_not_mem_quote h
  | array h ih =>
    have hjoin := not_mem_join (c := '\n') (by decide) (List.forall_mem_map.mpr ih)
    rw [compact_array]
    simpa using hjoin
  | @object fields sorted keys h ih =>
    have hfield : ∀ f ∈ fields, '\n' ∉ compactField f := by
      intro f hf
      have hk := newline_not_mem_quote (keys f hf).2
      simp [compactField, hk, ih f hf]
    have hjoin := not_mem_join (c := '\n') (by decide) (List.forall_mem_map.mpr hfield)
    rw [compact_object]
    simpa using hjoin

/-- A collection is written between brackets that pair up. -/
theorem compact_bracketed {v : Value} (h : Canonical Escapable FlowKey v) (hv : Json.Collection v) :
    ∃ opening t closing, isOpening opening = true ∧ isClosing closing = true ∧ Balanced t ∧
      compact v = opening :: (t ++ [closing]) := by
  cases hv with
  | array items =>
    cases h with
    | plain h => cases h
    | array h =>
      exact ⟨'[', _, ']', rfl, rfl,
        balanced_join (List.forall_mem_map.mpr fun v hv => balanced_compact (h v hv)), compact_array _⟩
  | object fields =>
    cases h with
    | plain h => cases h
    | object sorted keys h =>
      refine ⟨'\x7b', _, '\x7d', rfl, rfl,
        balanced_join (List.forall_mem_map.mpr fun f hf => ?_), compact_object _⟩
      exact (balanced_quote (keys f hf).2).append ((balanced_compact (h f hf)).cons rfl)

theorem tight_bracketed {opening closing : Char} (ho : isOpening opening = true)
    (hc : isClosing closing = true) (t : Text) : Text.Tight (opening :: (t ++ [closing])) := by
  refine ⟨?_, ?_⟩
  · simp only [isOpening, Bool.or_eq_true, decide_eq_true_eq] at ho
    rcases ho with rfl | rfl <;> simp <;> rfl
  · rw [← List.cons_append, List.getLast?_concat]
    simp only [isClosing, Bool.or_eq_true, decide_eq_true_eq] at hc
    rcases hc with rfl | rfl <;> simp <;> rfl

theorem read_of_readsBack {v : Value} (h : ReadsBack v) : Flow.read (compact v) = .ok v := by
  have hback := h [] (by simp [Ends])
  rw [List.append_nil, takeValue] at hback
  rw [Flow.read]
  cases hr : readValue (compact v) with
  | error e => simp [hr, Except.map] at hback
  | ok r =>
    simp only [hr, Except.map, Read.parts, Except.ok.injEq, Prod.mk.injEq] at hback
    simp [Except.map, hback.1]

/-- A collection that stands on a line is read there. -/
theorem readInline_compact {v : Value} (h : Canonical Escapable FlowKey v) (hv : Json.Collection v)
    (line : Line) (parent : Option Nat) (ls : List Line) :
    (readInline (compact v) line parent ls).map Outline.Read.parts = .ok (v, ls) := by
  obtain ⟨opening, t, closing, ho, hc, ht, hform⟩ := compact_bracketed h hv
  have hend : collection? 0 (compact v) = some (compact v, []) := by
    rw [hform]
    exact ht.collection? ho hc []
  have hflow : readInline (compact v) line parent ls = readFlow (compact v) line ls := by
    rw [hform, readInline]
    simp only [isOpening, Bool.or_eq_true, decide_eq_true_eq] at ho
    rcases ho with rfl | rfl <;> rfl
  rw [hflow, readFlow_parts, gathered_of_some hend]
  simp [finish, read_of_readsBack (readsBack h), isTrailingComment, Text.trim, Text.trimStart,
    Text.trimEnd]

end Flow

open Json (Value Fields Canonical compact)
open TemplateDocs.Outline.Flow (Escapable FlowKey)

theorem document_line {t : Text} (h : '\n' ∉ t) (n : Nat) : document n t = [Line.of n t] := by
  have hsplit := @Lines.split_toText [t] (by simp) (by simpa using h)
  rw [show Lines.toText [t] = t by simp [Lines.toText, Text.join]] at hsplit
  rw [document, hsplit]
  rfl

/-- A line of content that is no separator is the document. -/
theorem read_of_reads {t : Text} {v : Value} {n : Nat} (hline : '\n' ∉ t) (ht : Text.Tight t)
    (hidle : ∀ c ∈ t.head?, c ≠ '#' ∧ c ≠ '-') (hne : t ≠ [])
    (h : Reads (.node none) [⟨n, 0, t, t⟩] v []) : read t n = .ok v := by
  obtain ⟨c, t, rfl⟩ := List.exists_cons_of_ne_nil hne
  obtain ⟨hmark, hdash⟩ := hidle c (by simp)
  have hof : Line.of n (c :: t) = ⟨n, 0, c :: t, c :: t⟩ := by
    have hindent := @Lines.indent_append [] (c :: t) (by simp) ht.head
    rw [Line.of, Text.trim_of_tight ht, show Lines.indent (c :: t) = 0 from hindent]
  have hactive : active [Line.of n (c :: t)] = [Line.of n (c :: t)] :=
    active_cons (by simp [hof, Line.isIdle, hmark]) []
  have hbody : documentBody (document n (c :: t)) = [Line.of n (c :: t)] := by
    rw [document_line hline, documentBody, hactive]
    simp [hof, hdash]
  refine readLines_eq_ok_iff.mpr ⟨[], ?_, rfl⟩
  change Reads (.node none) (documentBody (document n (c :: t))) v []
  rw [hbody, hof]
  exact h

theorem blockTask?_opening {line : Line} {c : Char} {t : Text} (h : line.text = c :: t)
    (hc : Flow.isOpening c = true) : blockTask? line = none := by
  simp only [Flow.isOpening, Bool.or_eq_true, decide_eq_true_eq] at hc
  rcases hc with rfl | rfl <;>
    simp [blockTask?, h, Line.isItemText, splitKey?, Flow.isQuote, Flow.isOpening]

theorem blockTask?_key {line : Line} {k after : Text} (h : splitKey? line.text = some (k, after)) :
    blockTask? line = some (.mapping line.indent []) := by
  have hitem : Line.isItemText line.text = false := by
    cases hi : Line.isItemText line.text with
    | false => rfl
    | true =>
      rw [splitKey?_of_isItemText hi] at h
      cases h
  simp [blockTask?, hitem, h]

theorem read_compact {v : Value} (h : Canonical Escapable FlowKey v) (hv : Json.Collection v)
    (n : Nat) : read (compact v) n = .ok v := by
  obtain ⟨opening, t, closing, ho, hc, -, hform⟩ := Flow.compact_bracketed h hv
  have htight : Text.Tight (compact v) := hform ▸ Flow.tight_bracketed ho hc t
  have hopening : opening ≠ '#' ∧ opening ≠ '-' := by
    simp only [Flow.isOpening, Bool.or_eq_true, decide_eq_true_eq] at ho
    rcases ho with rfl | rfl <;> decide
  refine read_of_reads (Flow.newline_not_mem_compact h) htight ?_ (by simp [hform]) ?_
  · simpa [hform] using hopening
  · exact .inline (active_cons (by simp [Line.isIdle, hform, hopening.1]) []) (blockTask?_opening hform ho)
      (Flow.readInline_compact h hv _ _ _)

theorem read_key_compact {v : Value} (h : Canonical Escapable FlowKey v) (hv : Json.Collection v)
    {k : Text} (hk : Identifier k) (n : Nat) :
    read (k ++ ':' :: ' ' :: compact v) n = .ok (.object [(k, v)]) := by
  obtain ⟨opening, t, closing, ho, hc, -, hform⟩ := Flow.compact_bracketed h hv
  have htight : Text.Tight (compact v) := hform ▸ Flow.tight_bracketed ho hc t
  have hne : compact v ≠ [] := by simp [hform]
  have hkey : splitKey? (k ++ ':' :: ' ' :: compact v) = some (k, ' ' :: compact v) :=
    hk.splitKey? rfl
  have hline : Text.Tight (k ++ ':' :: ' ' :: compact v) := by
    refine ⟨?_, ?_⟩
    · rw [List.head?_append_of_ne_nil _ hk.ne_nil]
      exact hk.tight.head
    · rw [show k ++ ':' :: ' ' :: compact v = (k ++ [':', ' ']) ++ compact v by simp,
        List.getLast?_append_of_ne_nil _ hne]
      exact htight.last
  have hstart : ∀ c ∈ (k ++ ':' :: ' ' :: compact v).head?, c ≠ '#' ∧ c ≠ '-' := by
    intro c hc
    rw [List.head?_append_of_ne_nil _ hk.ne_nil] at hc
    have hmem := List.mem_of_mem_head? hc
    exact ⟨hk.ne hmem ⟨rfl, by decide⟩, hk.ne hmem ⟨rfl, by decide⟩⟩
  have hvalue : Text.trim (' ' :: compact v) = compact v := by
    rw [show ' ' :: compact v = [' '] ++ compact v from rfl,
      Text.trim_append_left (by simp; decide), Text.trim_of_tight htight]
  have hnewline : '\n' ∉ k ++ ':' :: ' ' :: compact v := by
    have hk' : '\n' ∉ k := fun hm => hk.ne hm ⟨rfl, by decide⟩ rfl
    simp [hk', Flow.newline_not_mem_compact h]
  have hidle : Line.isIdle ⟨n, 0, k ++ ':' :: ' ' :: compact v, k ++ ':' :: ' ' :: compact v⟩ = false := by
    obtain ⟨c, k', rfl⟩ := List.exists_cons_of_ne_nil hk.ne_nil
    simpa [Line.isIdle] using (hstart c rfl).1
  have htrailing : isTrailingComment (compact v) = false := by
    simp only [Flow.isOpening, Bool.or_eq_true, decide_eq_true_eq] at ho
    rcases ho with rfl | rfl <;> simp [isTrailingComment, hform]
  have hentry : Reads (.entry (Text.trim (' ' :: compact v))
      ⟨n, 0, k ++ ':' :: ' ' :: compact v, k ++ ':' :: ' ' :: compact v⟩ 0) [] v [] := by
    rw [hvalue]
    exact .entryInline htrailing (Flow.readInline_compact h hv _ _ _)
  have hend : Reads (.mapping 0 [(k, v)]) [] (.object [(k, v)]) [] :=
    @Reads.mappingEnd 0 [(k, v)] [] (by simp [active])
  exact read_of_reads hnewline hline hstart (by simp) (.block (active_cons hidle [])
    (blockTask?_key hkey) (.mappingEntry (active_cons hidle []) rfl hkey rfl hentry hend))

/-- The compact text of a collection is read as the collection, alone and as the value of a key. -/
theorem read_compactJson {v : Value} (h : Canonical Escapable FlowKey v) (hv : Json.Collection v)
    {k : Text} (hk : Identifier k) (firstLine : Nat) :
    read (compact v) firstLine = .ok v ∧
      read (k ++ ':' :: ' ' :: compact v) firstLine = .ok (.object [(k, v)]) :=
  ⟨read_compact h hv firstLine, read_key_compact h hv hk firstLine⟩

/-- Strings with brackets, separators, quotes and escapes in nested collections. -/
def nestedValue : Value :=
  .object [("a\"".toList, .array [.number (.int (-7)), .string "],\\\n'\x7d\t: #".toList, .object [],
    .object [("\x7b".toList, .bool true)]]), ("b".toList, .null)]

theorem read_compactJson_nestedValue :
    read (compact nestedValue) 1 = .ok nestedValue ∧
      read ("key_1: ".toList ++ compact nestedValue) 1 = .ok (.object [("key_1".toList, nestedValue)]) := by
  have hinner : Canonical Escapable FlowKey (.object [("\x7b".toList, .bool true)]) :=
    .object (by decide) (by simp; decide) (by simpa using .plain (.bool true))
  have hitems : Canonical Escapable FlowKey (.array [.number (.int (-7)), .string "],\\\n'\x7d\t: #".toList,
      .object [], .object [("\x7b".toList, .bool true)]]) := by
    refine .array ?_
    simp only [List.forall_mem_cons]
    exact ⟨.plain (.int (by decide)), .string (by decide), .object .nil (by simp) (by simp), hinner,
      by simp⟩
  have hvalue : Canonical Escapable FlowKey nestedValue := by
    refine .object (by decide) ?_ ?_
    · simp only [List.forall_mem_cons]
      exact ⟨by decide, by decide, by simp⟩
    · simp only [List.forall_mem_cons]
      exact ⟨hitems, .plain .null, by simp⟩
  have hkey : Identifier "key_1".toList := ⟨by decide, by simp; decide⟩
  exact read_compactJson hvalue (.object _) hkey 1

end TemplateDocs.Outline
