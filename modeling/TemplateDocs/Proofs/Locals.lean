import Mathlib
import TemplateDocs.Config
import TemplateDocs.Render
import TemplateDocs.Proofs.Metadata.Tidiness
import TemplateDocs.Proofs.Rendering

/-!
# Layers of locals

Locals come in four layers: those of an override object lie over those of the block, which lie over
those of the configuration, which lie over those of the locals file. Under each key a variant is
given what the highest layer with that key says, and null is something to say.
-/
namespace TemplateDocs

open Json (Fields)

/-! ### Where variants come from -/

/-- What a variant was made from: the code, an example of the block's own, or an example of an
override object. `finish` is what is done to every source in the end. -/
inductive Variant.From (finish : Text → Text) (code : Text) (hooks : Hooks) (es : List Example)
    (v : Variant) : Option Override → Prop
  | code (hfragment : v.fragment = none) (hsource : v.source = finish code) :
      From finish code hooks es v none
  | sample {s : Text} (hs : .source s ∈ es) (hfragment : v.fragment = none)
      (hsource : v.source = finish (mergeSource code (hooks.wrap s))) : From finish code hooks es v none
  | override {i : Nat} {o : Override} {source : Text}
      (ho : (es.filterMap Example.override?)[i]? = some o) (hfragment : v.fragment = some i)
      (hmem : source ∈ Assembly.overrideSources code (o.settings.hooks.orElse hooks) o)
      (hsource : v.source = finish source) : From finish code hooks es v (some o)

/-- The locals of the override object, if the variant comes from one. -/
def Override.localsOf (origin : Option Override) : Locals := origin.elim [] Override.locals

namespace Variant.From

variable {finish : Text → Text} {code : Text} {hooks : Hooks} {es : List Example} {v : Variant}
  {origin : Option Override}

theorem append (h : From finish code hooks es v origin) (more : List Example) :
    From finish code hooks (es ++ more) v origin := by
  cases h with
  | code hfragment hsource => exact .code hfragment hsource
  | sample hs hfragment hsource => exact .sample (List.mem_append_left _ hs) hfragment hsource
  | override ho hfragment hmem hsource =>
    refine .override ?_ hfragment hmem hsource
    obtain ⟨hi, -⟩ := List.getElem?_eq_some_iff.mp ho
    rw [List.filterMap_append, List.getElem?_append_left hi, ho]

theorem linked (h : From id code hooks es v origin) (mixins : List Mixin) :
    From (Mixin.link mixins) code hooks es { v with source := Mixin.link mixins v.source } origin := by
  cases h with
  | code hfragment hsource => exact .code hfragment (congrArg (Mixin.link mixins) hsource)
  | sample hs hfragment hsource => exact .sample hs hfragment (congrArg (Mixin.link mixins) hsource)
  | override ho hfragment hmem hsource =>
    exact .override ho hfragment hmem (congrArg (Mixin.link mixins) hsource)

end Variant.From

namespace Assembly

/-- The assembly of the examples `es`: every variant has the block's locals, with those of its
override object over them. -/
structure Layered (frame : Frame) (es : List Example) (a : Assembly) : Prop where
  fragments : a.fragments = es.filterMap Example.override?
  variants : ∀ v ∈ a.variants, ∃ origin, v.From id frame.code frame.hooks es origin ∧
    v.locals = Fields.overlay frame.locals (Override.localsOf origin)

namespace Layered

variable {frame : Frame} {es : List Example} {a : Assembly}

theorem addSource (h : Layered frame es a) (s : Text) :
    Layered frame (es ++ [.source s]) (a.addSource frame s) := by
  have hfragments : a.fragments = (es ++ [Example.source s]).filterMap Example.override? := by
    simp [h.fragments, Example.override?]
  have hbefore : ∀ v ∈ a.variants, ∃ origin,
      v.From id frame.code frame.hooks (es ++ [.source s]) origin ∧
        v.locals = Fields.overlay frame.locals (Override.localsOf origin) := by
    intro v hv
    obtain ⟨origin, hfrom, hlocals⟩ := h.variants v hv
    exact ⟨origin, hfrom.append _, hlocals⟩
  unfold Assembly.addSource
  split_ifs
  · exact ⟨hfragments, hbefore⟩
  · refine ⟨hfragments, ?_⟩
    intro v hv
    rcases List.mem_append.mp hv with hv | hv
    · exact hbefore v hv
    · rw [List.mem_singleton.mp hv]
      exact ⟨none, .sample (by simp) rfl rfl, rfl⟩

theorem addOverride (h : Layered frame es a) (o : Override) :
    Layered frame (es ++ [.object o]) (a.addOverride frame o) := by
  have hlast : (es ++ [Example.object o]).filterMap Example.override? = a.fragments ++ [o] := by
    simp [h.fragments, Example.override?]
  refine ⟨hlast.symm, ?_⟩
  intro v hv
  rcases List.mem_append.mp hv with hv | hv
  · obtain ⟨origin, hfrom, hlocals⟩ := h.variants v hv
    exact ⟨origin, hfrom.append _, hlocals⟩
  · obtain ⟨source, hsource, rfl⟩ := List.mem_map.mp hv
    refine ⟨some o, .override ?_ rfl hsource rfl, rfl⟩
    rw [hlast]
    exact List.getElem?_concat_length

theorem add (h : Layered frame es a) (e : Example) : Layered frame (es ++ [e]) (a.add frame e) := by
  cases e with
  | source s => exact h.addSource s
  | object o => exact h.addOverride o

theorem foldl (h : Layered frame es a) (more : List Example) :
    Layered frame (es ++ more) (more.foldl (Assembly.add frame) a) := by
  induction more generalizing es a with
  | nil => rwa [List.append_nil]
  | cons e more ih =>
    rw [List.append_cons]
    exact ih (h.add e)

theorem orCode (h : Layered frame es a) : Layered frame es (Assembly.orCode frame a) := by
  unfold Assembly.orCode
  split_ifs
  · refine ⟨h.fragments, ?_⟩
    intro v hv
    rw [List.mem_singleton.mp hv]
    exact ⟨none, .code rfl rfl, rfl⟩
  · exact h

end Layered

/-- What a block says itself. -/
def frameOf (m : Metadata) (code : Text) : Frame where
  label := m.name.getD "block".toList
  code := code
  hooks := m.settings.hooks
  locals := m.settings.locals.getD []

theorem ofMetadata_layered (m : Metadata) (code : Text) :
    Layered (frameOf m code) m.entries (ofMetadata m code) := by
  have hstart : Layered (frameOf m code) [] { suppressed := m.isSuppressed } := ⟨rfl, nofun⟩
  exact (hstart.foldl m.entries).orCode

/-- Every variant of a block, linked, and what its own locals are. -/
theorem exists_from (m : Metadata) (code : Text) (mixins : List Mixin) :
    ∀ v ∈ ((ofMetadata m code).link mixins).variants, ∃ origin,
      v.From (Mixin.link mixins) code m.settings.hooks m.entries origin ∧
      v.locals = Fields.overlay (m.settings.locals.getD []) (Override.localsOf origin) := by
  intro v hv
  obtain ⟨w, hw, rfl⟩ := List.mem_map.mp hv
  obtain ⟨origin, hfrom, hlocals⟩ := (ofMetadata_layered m code).variants w hw
  exact ⟨origin, hfrom.linked mixins, hlocals⟩

end Assembly

/-! ### The layers -/

theorem Variant.From.localsOf_nodup {finish : Text → Text} {code : Text} {hooks : Hooks} {m : Metadata}
    {v : Variant} {origin : Option Override} (hd : Json.DistinctKeys m.record)
    (h : v.From finish code hooks m.entries origin) :
    ((Override.localsOf origin).map Prod.fst).Nodup := by
  cases h with
  | code => exact .nil
  | sample => exact .nil
  | override ho =>
    exact Override.locals_nodup (hd.inside (Metadata.override_inside (List.mem_of_getElem? ho)))

/-- Tables are translated key by key. -/
theorem Toml.keys_entriesToJson {entries : Toml.Entries} {fields : Fields}
    (h : entriesToJson entries = .ok fields) : fields.map Prod.fst = entries.map Prod.fst := by
  induction entries generalizing fields with
  | nil =>
    cases h
    rfl
  | cons entry rest ih =>
    obtain ⟨k, v⟩ := entry
    rw [entriesToJson] at h
    obtain ⟨first, -, h⟩ := Except.bind_eq_ok_iff.mp h
    obtain ⟨others, hrest, h⟩ := Except.bind_eq_ok_iff.mp h
    cases h
    rw [List.map_cons, List.map_cons, ih hrest]

theorem DataFile.keys_fieldsOfToml {path : Text} {entries : Toml.Entries} {fields : Fields}
    (h : fieldsOfToml path entries = .ok fields) : fields.map Prod.fst = entries.map Prod.fst := by
  unfold fieldsOfToml at h
  cases hentries : Toml.entriesToJson entries with
  | error e => simp [hentries, Except.mapError] at h
  | ok fields' =>
    rw [hentries] at h
    cases h
    exact Toml.keys_entriesToJson hentries

theorem Config.loadLocals_eq_ok {c : Config} {tree : Files.Tree} {root : Files.Path}
    {stored inline : Locals} (hstored : c.localsFile.elim (.ok []) (fileLocals tree root) = .ok stored)
    (hinline : DataFile.fieldsOfToml displayName c.locals = .ok inline) :
    c.loadLocals tree root = .ok (Fields.overlay stored inline) := by
  rw [loadLocals, hstored, hinline]
  rfl

theorem Json.Fields.get?_overlay_layers {o b i f : Fields} (ho : (o.map Prod.fst).Nodup)
    (hb : Fields.Sorted b) (hi : (i.map Prod.fst).Nodup) (key : Text) :
    get? key (overlay (overlay f i) (overlay b o)) = [o, b, i, f].findSome? (get? key) := by
  rw [get?_overlay _ (hb.overlay o).nodup, get?_overlay _ ho, get?_overlay _ hi]
  simp only [List.findSome?_cons, List.findSome?_nil]
  cases get? key o <;> cases get? key b <;> cases get? key i <;> cases get? key f <;> rfl

/-- Under every key, a variant is given what the highest of its layers says: the override object it
comes from, the block, the configuration, the locals file. -/
theorem locals_are_layered {c : Config} {tree : Files.Tree} {root : Files.Path}
    {stored inline : Locals} {b : Block} {m : Metadata}
    (hstored : c.localsFile.elim (.ok []) (Config.fileLocals tree root) = .ok stored)
    (htable : (c.locals.map Prod.fst).Nodup)
    (hinline : DataFile.fieldsOfToml Config.displayName c.locals = .ok inline)
    (hm : Metadata.ofBlock b = .ok m) (code : Text) (mixins : List Mixin) :
    ∃ globals, c.loadLocals tree root = .ok globals ∧
    ∃ given : Variant → Locals,
      (∀ e file, ∃ outputs, ((Assembly.ofMetadata m code).link mixins).Accounts e file given outputs
        (((Assembly.ofMetadata m code).link mixins).render e globals file)) ∧
      ∀ v ∈ ((Assembly.ofMetadata m code).link mixins).variants, ∃ origin,
        v.From (Mixin.link mixins) code m.settings.hooks m.entries origin ∧
        ∀ key, Fields.get? key (given v) =
          [Override.localsOf origin, m.settings.locals.getD [], inline, stored].findSome?
            (Fields.get? key) := by
  refine ⟨_, Config.loadLocals_eq_ok hstored hinline, Variant.localsOver (Fields.overlay stored inline),
    ?_, ?_⟩
  · intro e file
    exact ⟨_, Assembly.accounts_render e _ file _⟩
  · intro v hv
    obtain ⟨origin, hfrom, hlocals⟩ := Assembly.exists_from m code mixins v hv
    refine ⟨origin, hfrom, fun key => ?_⟩
    rw [Variant.localsOver, hlocals]
    apply Fields.get?_overlay_layers
    · exact hfrom.localsOf_nodup (Metadata.distinctKeys_record hm)
    · exact Metadata.sorted_locals hm
    · rw [DataFile.keys_fieldsOfToml hinline]
      exact htable

/-! ### All four layers at once -/

def layeredText : Text := "a = 1\nb = 1\nc = 1\nd = 1\n".toList

def layeredTree : Files.Tree where
  nodes := [([Files.Path.of "locals.toml"], .file (Text.toBytes layeredText))]

def layeredConfig : Config where
  localsFile := some "locals.toml".toList
  locals := ["a", "b", "c"].map fun key => (key.toList, .integer 2)

def layeredBlock : Block where
  line := 1
  column := 0
  comment := ["//- @pugdoc", "  name: x", "  locals:", "    a: 3", "    b: 3", "  example:",
    "    locals: \x7ba: null\x7d", "    example: p"].map String.toList
  code := ["p code".toList]
  capture := .single

theorem readText_layeredTree :
    layeredTree.readText (Files.Path.of "/locals.toml") = .ok layeredText := by
  have hget : layeredTree.get? [Files.Path.of "locals.toml"] =
      some (.file (Text.toBytes layeredText)) := by
    decide +kernel
  have hfollow : layeredTree.follow true Files.Tree.linkLimit [] [Files.Path.of "locals.toml"] =
      .ok (.present [Files.Path.of "locals.toml"] (.file (Text.toBytes layeredText))) := by
    rw [Files.Tree.follow, if_neg (by decide), if_neg (by decide), if_neg (by decide)]
    simp only [List.nil_append, hget]
    rfl
  have hlocate : layeredTree.locate true (Files.Path.of "/locals.toml") =
      .ok (.present [Files.Path.of "locals.toml"] (.file (Text.toBytes layeredText))) := by
    rw [Files.Tree.locate, if_neg (by decide), if_neg (by decide), if_neg (by decide +kernel)]
    exact hfollow
  have htext : Text.ofBytes? (Text.toBytes layeredText) = some layeredText := by decide +kernel
  simp only [Files.Tree.readText, Files.Tree.readBytes, Files.Tree.resolve, hlocate, htext,
    Option.elim_some]

/-- What a layer has under each of five keys. -/
def layerTexts (locals : Locals) : List (Option Text) :=
  ["a", "b", "c", "d", "e"].map fun key => (Fields.get? key.toList locals).map Json.compact

theorem fileLocals_layeredTree :
    layeredConfig.localsFile.elim (.ok []) (Config.fileLocals layeredTree (Files.Path.of "/")) =
      (DataFile.parse layeredText "toml".toList "locals.toml".toList).bind
        (Config.localsOfValue "locals.toml".toList) := by
  have hpath : Files.Path.append (Files.Path.of "/") (Text.toBytes "locals.toml".toList) =
      Files.Path.of "/locals.toml" := by
    decide
  have hformat : Text.lowerAscii
      (((Files.Path.extension? (Files.Path.of "/locals.toml")).bind Text.ofBytes?).getD []) =
        "toml".toList := by
    decide +kernel
  change Config.fileLocals layeredTree (Files.Path.of "/") "locals.toml".toList = _
  simp only [Config.fileLocals, hpath, readText_layeredTree, hformat]

theorem layerTexts_findSome? {given : Locals} {layers : List Locals}
    (h : ∀ key, Fields.get? key given = layers.findSome? (Fields.get? key)) :
    layerTexts given = (layers.map layerTexts).foldr (List.zipWith Option.or) (layerTexts []) := by
  simp only [layerTexts, h]
  clear h
  induction layers with
  | nil => rfl
  | cons l layers ih =>
    have hcons : ∀ key, ((l :: layers).findSome? (Fields.get? key)).map Json.compact =
        ((Fields.get? key l).map Json.compact).or
          ((layers.findSome? (Fields.get? key)).map Json.compact) := by
      intro key
      cases hkey : Fields.get? key l <;> simp [hkey]
    simp only [hcons]
    exact congrArg (List.zipWith Option.or (layerTexts l)) ih

def layerLine (locals : Locals) : Text :=
  Text.join ", ".toList ((layerTexts locals).map fun text => text.getD "nothing".toList)

/-- An engine whose templates show what they are given. -/
def layerEngine : Engine where
  compile := fun _ _ _ => .ok fun locals => .ok (layerLine locals)

theorem Tally.of_layerEngine {file : Text} {given : Variant → Locals} {v : Variant}
    {outputs : List (Variant × Text)} {failures : List RenderFailure}
    (h : Tally layerEngine file given [v] outputs failures) : outputs = [(v, layerLine (given v))] := by
  have hmakes : ∀ {debug : Bool} {r : Except EngineError Text},
      layerEngine.Makes v.source file (given v) debug r → r = .ok (layerLine (given v)) :=
    fun hr => (Engine.makes_iff.mp hr).symm
  cases h with
  | output first rest =>
    cases rest
    cases hmakes first
    rfl
  | failure hfails =>
    cases hfails with
    | plain first => cases hmakes first
    | detailed first => cases hmakes first

/-- The override object says null under the first key, and every layer is asked for one of them. The
template shows what it was given. -/
theorem locals_are_layered_fourLayers : ∃ (globals : Locals) (m : Metadata) (o : Override) (v : Variant),
    layeredConfig.loadLocals layeredTree (Files.Path.of "/") = .ok globals ∧
    Metadata.ofBlock layeredBlock = .ok m ∧ m.overrides = [o] ∧
    ((Assembly.ofMetadata m layeredBlock.codeText).link []).variants = [v] ∧
    v.From (Mixin.link []) layeredBlock.codeText m.settings.hooks m.entries (some o) ∧
    (((Assembly.ofMetadata m layeredBlock.codeText).link []).render layerEngine globals
      "page".toList).output = some "null, 3, 2, 1, nothing".toList := by
  have hstored := fileLocals_layeredTree
  have hstoredTexts : ((DataFile.parse layeredText "toml".toList "locals.toml".toList).bind
      (Config.localsOfValue "locals.toml".toList)).toOption.map layerTexts =
        some [some "1".toList, some "1".toList, some "1".toList, some "1".toList, none] := by
    decide +kernel
  have hblock : (Metadata.ofBlock layeredBlock).toOption.map (fun m =>
      (layerTexts (m.settings.locals.getD []), m.overrides.map fun o => layerTexts o.locals,
        ((Assembly.ofMetadata m layeredBlock.codeText).link []).variants.map Variant.fragment)) =
      some ([some "3".toList, some "3".toList, none, none, none],
        [[some "null".toList, none, none, none, none]], [some 0]) := by
    decide +kernel
  have hshown : (Metadata.ofBlock layeredBlock).toOption.map (fun m =>
      ((Assembly.ofMetadata m layeredBlock.codeText).link []).suppressed) = some false := by
    decide +kernel
  cases hm : Metadata.ofBlock layeredBlock with
  | error e => simp [hm, Except.toOption] at hblock
  | ok m =>
    generalize (DataFile.parse layeredText "toml".toList "locals.toml".toList).bind
      (Config.localsOfValue "locals.toml".toList) = file at hstored hstoredTexts
    cases file with
    | error e => simp [Except.toOption] at hstoredTexts
    | ok stored =>
      simp only [hm, Except.toOption, Option.map_some, Option.some.injEq, Prod.mk.injEq]
        at hblock hstoredTexts hshown
      obtain ⟨hlocals, hoverrides, hfragments⟩ := hblock
      obtain ⟨globals, hglobals, given, haccounts, hlayers⟩ :=
        locals_are_layered hstored (by decide) rfl hm layeredBlock.codeText []
      obtain ⟨o, ho⟩ : ∃ o, m.overrides = [o] :=
        List.length_eq_one_iff.mp (by simpa using congrArg List.length hoverrides)
      obtain ⟨v, hv⟩ : ∃ v, ((Assembly.ofMetadata m layeredBlock.codeText).link []).variants = [v] :=
        List.length_eq_one_iff.mp (by simpa using congrArg List.length hfragments)
      obtain ⟨origin, hfrom, hkeys⟩ := hlayers v (by simp [hv])
      have hfragment : v.fragment = some 0 := by simpa [hv] using hfragments
      have horigin : origin = some o := by
        cases hfrom with
        | code hnone => simp [hfragment] at hnone
        | sample _ hnone => simp [hfragment] at hnone
        | override hget hindex =>
          rw [hfragment] at hindex
          cases hindex
          change m.overrides[0]? = _ at hget
          rw [ho] at hget
          exact hget.symm
      subst horigin
      refine ⟨globals, m, o, v, hglobals, rfl, ho, hv, hfrom, ?_⟩
      have htexts : layerTexts (given v) =
          [some "null".toList, some "3".toList, some "2".toList, some "1".toList, none] := by
        rw [ho, List.map_singleton, List.singleton_inj] at hoverrides
        change layerTexts (Override.localsOf (some o)) = _ at hoverrides
        have hinline : layerTexts (["a", "b", "c"].map fun key => (key.toList, .number (.int 2))) =
            [some "2".toList, some "2".toList, some "2".toList, none, none] := by
          decide +kernel
        rw [layerTexts_findSome? hkeys]
        simp only [List.map_cons, List.map_nil] at hinline
        simp only [List.map_cons, List.map_nil, hoverrides, hlocals, hinline, hstoredTexts]
        rfl
      obtain ⟨outputs, hreport⟩ := haccounts layerEngine "page".toList
      have htally := hreport.tally
      rw [hshown, hv] at htally
      rw [hreport.output, hshown, htally.of_layerEngine, layerLine, htexts,
        if_pos ⟨rfl, List.cons_ne_nil _ _⟩]
      rfl

end TemplateDocs
