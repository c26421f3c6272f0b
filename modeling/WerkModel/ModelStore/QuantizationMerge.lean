import WerkModel.ModelStore.Quantization

-- What a merge keeps of the formats that its sources declare.
namespace ModelStore

variable {config sidecar : Option Json} {paths : List String} {source : Json}
variable {sources : List Json} {format : QuantizationFormat}
variable {first next profile other : QuantizationProfile} {held rest : List QuantizationProfile}

section Definitions

-- A source declares formats in its layers, in its groups and by its algorithm.
inductive Declares (source : Json) (format : QuantizationFormat) : Prop
  | layer {layers : List (String × Json)} {layer : String × Json} :
    quantizedLayers source = some layers → layer ∈ layers →
    (layerGroup source layer.1 layer.2).format = format → Declares source format
  | group {groups : List (String × Json)} {group : String × Json} :
    configGroups source = some groups → group ∈ groups →
    (configGroup source group.1 group.2).format = format → Declares source format
  | algorithm {algo : String} : algorithm source = some algo →
    algoFormat (some algo) = format → Declares source format

def Declared (sources : List Json) (format : QuantizationFormat) : Prop :=
  ∃ source ∈ sources, Declares source format

def contents (config sidecar : Option Json) : List Json :=
  [configContent config, textContent config, sidecarContent sidecar].reduceOption

-- The sources in the order that they have once two of them are exchanged.
def exchangedContents (config sidecar : Option Json) : List Json :=
  [configContent config, sidecarContent sidecar, textContent config].reduceOption

structure Exchanged (config sidecar config' sidecar' : Option Json) : Prop where
  same : configContent config' = configContent config
  text : textContent config' = sidecarContent sidecar
  side : sidecarContent sidecar' = textContent config

def QuantizationProfile.HasFormat (profile : QuantizationProfile) (format : QuantizationFormat) :
    Prop :=
  ∃ group ∈ profile.groups, group.format = format

structure Reports (sources : List Json) (profile : QuantizationProfile) : Prop where
  configured : profile.evidence = .configuration
  nvfp4      : profile.hasNvfp4 = true ↔ Declared sources .nvfp4
  mxfp4      : profile.HasFormat .mxfp4 ↔ Declared sources .mxfp4
  mixed      : ∀ format format', Declared sources format → Declared sources format' →
    format ≠ format' → profile.mixedPrecision = true

structure SameAnswers (profile other : QuantizationProfile) : Prop where
  nvfp4 : profile.hasNvfp4 = other.hasNvfp4
  mxfp4 : profile.HasFormat .mxfp4 ↔ other.HasFormat .mxfp4
  mixed : profile.mixedPrecision = other.mixedPrecision

structure HidesNothing (config sidecar : Option Json) (paths : List String) : Prop where
  reports  : ∀ source ∈ contents config sidecar, (parseConfig source).isSome →
    ∃ profile, inferProfile config sidecar paths = some profile ∧
      Reports (contents config sidecar) profile
  exchange : ∀ config' sidecar', Exchanged config sidecar config' sidecar' →
    ∀ profile, inferProfile config sidecar paths = some profile →
      ∃ other, inferProfile config' sidecar' paths = some other ∧ SameAnswers profile other
  hints    : (∀ source ∈ contents config sidecar, parseConfig source = none) →
    inferProfile config sidecar paths = filenameProfile paths ∧
    ∀ profile, inferProfile config sidecar paths = some profile → profile.isAuthoritative = false

-- The sources whose groups are left by a merge. One that only identifies the exporter gives
-- way to any other, and of two compatible ones only that with more groups stays.
def keptAfter (first : QuantizationProfile) (held : List QuantizationProfile) :
    List QuantizationProfile → List QuantizationProfile
  | []           => held
  | next :: rest =>
    keptAfter (merge first next)
      (if first.exporterOnly then [next]
      else if next.exporterOnly then held
      else if first.compatible next then
        if next.groups.length > first.groups.length then [next] else held
      else held ++ [next]) rest

def kept (sources : List Json) : List QuantizationProfile :=
  match sources.filterMap parseConfig with
  | []            => []
  | first :: rest => keptAfter first [first] rest

def Mixes (held : List QuantizationProfile) : Prop :=
  1 < held.length ∨ ∃ profile ∈ held, profile.mixedPrecision = true

-- Each format that a source declares is that of a group of a source that is kept.
def Shown (sources : List Json) : Prop :=
  ∀ format, format = .nvfp4 ∨ format = .mxfp4 → Declared sources format →
    ∃ profile ∈ kept sources, profile.HasFormat format

structure Unshadowed (config sidecar : Option Json) : Prop where
  shown     : Shown (contents config sidecar)
  exchanged : Shown (exchangedContents config sidecar)
  mixed     : ∀ format format', Declared (contents config sidecar) format →
    Declared (contents config sidecar) format' → format ≠ format' →
    Mixes (kept (contents config sidecar))
  same      : Mixes (kept (contents config sidecar)) ↔
    Mixes (kept (exchangedContents config sidecar))

end Definitions

section Profiles

open QuantizationProfile

structure QuantizationProfile.Formed (profile : QuantizationProfile) : Prop where
  configured : profile.evidence = .configuration
  listed     : profile.format = .mixed ∨ profile.HasFormat profile.format

theorem QuantizationProfile.Formed.hasNvfp4_iff (h : profile.Formed) :
    profile.hasNvfp4 = true ↔ profile.HasFormat .nvfp4 := by
  have hl : profile.format = .nvfp4 → profile.HasFormat .nvfp4 := by
    intro he
    obtain hm | hl := h.listed
    · nomatch he.symm.trans hm
    · rwa [he] at hl
  simpa [hasNvfp4, HasFormat] using hl

theorem formed_aggregate {method algorithm : Option String} {groups : List QuantizationGroup}
    {nonempty : groups ≠ []} {explicitMixed perLayer : Bool} :
    (aggregate method algorithm groups nonempty explicitMixed perLayer).Formed where
  configured := rfl
  listed     := by
    simp only [aggregate, HasFormat]
    split
    case isTrue  => exact .inl rfl
    case isFalse => exact .inr ⟨_, List.head_mem nonempty, rfl⟩

theorem formed_parseConfig (h : parseConfig source = some profile) : profile.Formed := by
  rw [parseConfig] at h
  split at h
  case isTrue  => cases h
  case isFalse =>
    cases h
    exact formed_aggregate

theorem formed_merge (hf : first.Formed) (hn : next.Formed) : (merge first next).Formed := by
  rw [merge]
  split
  case isTrue => exact ⟨hn.configured, hn.listed⟩
  case isFalse =>
    split
    case isTrue => exact hf
    case isFalse =>
      split
      case isTrue =>
        split
        case isTrue  => exact ⟨hn.configured, hn.listed⟩
        case isFalse => exact ⟨hf.configured, hf.listed⟩
      case isFalse => exact formed_aggregate

-- The groups of a merge are those of the sources that it keeps.
structure Holds (profile : QuantizationProfile) (held : List QuantizationProfile) : Prop where
  groups : profile.groups = held.flatMap QuantizationProfile.groups
  mixed  : profile.mixedPrecision = true ↔ Mixes held
  some   : held ≠ []

theorem holds_singleton : Holds profile [profile] where
  groups := by simp
  mixed  := by simp [Mixes]
  some   := List.cons_ne_nil _ _

theorem Holds.hasFormat_iff (h : Holds profile held) :
    profile.HasFormat format ↔ ∃ source ∈ held, source.HasFormat format := by
  simp only [HasFormat, h.groups, List.mem_flatMap]
  constructor
  case mp =>
    rintro ⟨group, ⟨source, hs, hg⟩, he⟩
    exact ⟨source, hs, group, hg, he⟩
  case mpr =>
    rintro ⟨source, hs, group, hg, he⟩
    exact ⟨group, ⟨source, hs, hg⟩, he⟩

theorem Holds.of_eq (h : Holds profile held) (hg : other.groups = profile.groups)
    (hm : other.mixedPrecision = profile.mixedPrecision) : Holds other held where
  groups := hg.trans h.groups
  mixed  := hm ▸ h.mixed
  some   := h.some

theorem holds_append (h : Holds first held) {method algorithm : Option String} {perLayer : Bool}
    {nonempty : first.groups ++ next.groups ≠ []} :
    Holds (aggregate method algorithm (first.groups ++ next.groups) nonempty true perLayer)
      (held ++ [next]) where
  groups := by simp [aggregate, h.groups]
  mixed  := by
    have hl := List.length_pos_iff.mpr h.some
    simp [aggregate, Mixes, hl]
  some   := by simp

theorem holds_foldl_merge (h : Holds first held) :
    Holds (rest.foldl merge first) (keptAfter first held rest) := by
  induction rest generalizing first held
  case nil => exact h
  case cons next rest hi =>
    rw [List.foldl_cons, keptAfter]
    refine hi ?_
    rw [merge]
    split
    case isTrue => exact holds_singleton.of_eq rfl rfl
    case isFalse =>
      split
      case isTrue => exact h
      case isFalse =>
        split
        case isFalse => exact holds_append h
        case isTrue =>
          split
          case isTrue  => exact holds_singleton.of_eq rfl rfl
          case isFalse => exact h.of_eq rfl rfl

theorem formed_foldl_merge (hf : first.Formed) (hr : ∀ next ∈ rest, next.Formed) :
    (rest.foldl merge first).Formed := by
  induction rest generalizing first
  case nil => exact hf
  case cons next rest hi =>
    obtain ⟨hn, hr⟩ := List.forall_mem_cons.mp hr
    exact hi (formed_merge hf hn) hr

theorem mem_keptAfter (h : profile ∈ keptAfter first held rest) :
    profile ∈ held ∨ profile ∈ rest := by
  induction rest generalizing first held
  case nil => exact .inl h
  case cons next rest hi =>
    obtain h | h := hi h
    case inr => exact .inr (List.mem_cons_of_mem _ h)
    case inl =>
      split_ifs at h
      all_goals simp_all
      all_goals tauto

end Profiles

section Sources

theorem parseConfig_eq_some : (∃ profile, parseConfig source = some profile) ↔
    ¬(quantMethod source = none ∧ algorithm source = none ∧ quantizedLayers source = none ∧
      configGroups source = none) := by
  rw [parseConfig]
  split
  case isTrue h  => simp [h]
  case isFalse h => simp [h]

theorem exists_parseConfig (h : Declares source format) :
    ∃ profile, parseConfig source = some profile := by
  refine parseConfig_eq_some.mpr ?_
  rintro ⟨-, ha, hl, hg⟩
  cases h
  case layer h _ _     => cases hl.symm.trans h
  case group h _ _     => cases hg.symm.trans h
  case algorithm h _   => cases ha.symm.trans h

theorem groups_of_parseConfig (h : parseConfig source = some profile) :
    profile.groups = parsedGroups source := by
  rw [parseConfig] at h
  split at h
  case isTrue  => cases h
  case isFalse =>
    cases h
    rfl

theorem declares_of_mem {group : QuantizationGroup} (h : group ∈ listedGroups source) :
    Declares source group.format := by
  rw [listedGroups] at h
  split at h
  case h_1 layers hl =>
    obtain ⟨layer, hm, rfl⟩ := List.mem_map.mp h
    exact .layer hl hm rfl
  case h_2 =>
    obtain ⟨group, hm, rfl⟩ := List.mem_map.mp h
    cases hg : configGroups source
    case none =>
      rw [hg] at hm
      cases hm
    case some groups =>
      rw [hg] at hm
      exact .group hg hm rfl

-- A source without an algorithm and without groups still has a group, of another format.
theorem declares_of_hasFormat (hp : parseConfig source = some profile)
    (hf : profile.HasFormat format) (hn : format ≠ .other) : Declares source format := by
  obtain ⟨group, hm, rfl⟩ := hf
  rw [groups_of_parseConfig hp, parsedGroups] at hm
  split at hm
  case isFalse => exact declares_of_mem hm
  case isTrue =>
    rw [List.mem_singleton.mp hm, defaultGroup] at hn ⊢
    cases ha : algorithm source
    case none =>
      rw [ha] at hn
      exact absurd rfl hn
    case some algo => exact .algorithm ha rfl

theorem exists_of_mem_kept (h : profile ∈ kept sources) :
    ∃ source ∈ sources, parseConfig source = some profile := by
  rw [kept] at h
  split at h
  case h_1 => cases h
  case h_2 first rest he =>
    refine List.mem_filterMap.mp ?_
    rw [he, List.mem_cons]
    obtain h | h := mem_keptAfter h
    · exact .inl (List.mem_singleton.mp h)
    · exact .inr h

theorem declared_of_kept (h : ∃ profile ∈ kept sources, profile.HasFormat format)
    (hn : format ≠ .other) : Declared sources format := by
  obtain ⟨profile, hm, hf⟩ := h
  obtain ⟨source, hs, hp⟩ := exists_of_mem_kept hm
  exact ⟨source, hs, declares_of_hasFormat hp hf hn⟩

end Sources

section Inference

theorem merge_method (method : Option String) :
    ∃ method', merge first { next with method } = { merge first next with method := method' } := by
  rw [merge, merge]
  by_cases hf : first.exporterOnly
  case pos =>
    rw [if_pos hf, if_pos hf]
    exact ⟨_, rfl⟩
  case neg =>
    rw [if_neg hf, if_neg hf]
    by_cases hn : next.exporterOnly
    case pos =>
      rw [if_pos (by exact hn), if_pos hn]
      exact ⟨_, rfl⟩
    case neg =>
      rw [if_neg (by exact hn), if_neg hn]
      by_cases hc : first.compatible next
      case neg =>
        rw [if_neg (by exact hc), if_neg hc]
        exact ⟨_, rfl⟩
      case pos =>
        rw [if_pos (by exact hc), if_pos hc]
        by_cases hl : next.groups.length > first.groups.length
        case pos =>
          rw [if_pos (by exact hl), if_pos hl]
          exact ⟨_, rfl⟩
        case neg =>
          rw [if_neg (by exact hl), if_neg hl]
          exact ⟨_, rfl⟩

theorem filterMap_toList {α β : Type} {f : α → Option β} {a : Option α} :
    a.toList.filterMap f = (a.bind f).toList := by
  cases a
  case none   => rfl
  case some a =>
    rw [Option.toList_some, List.filterMap_cons, Option.bind_some]
    cases f a <;> rfl

theorem profiles_eq : (contents config sidecar).filterMap parseConfig =
    [configContent config, textContent config].reduceOption.filterMap parseConfig ++
      ((sidecarContent sidecar).bind parseConfig).toList := by
  have ha : contents config sidecar = [configContent config, textContent config].reduceOption ++
      (sidecarContent sidecar).toList := by
    rw [contents]
    cases configContent config <;> cases textContent config <;> cases sidecarContent sidecar <;>
      rfl
  rw [ha, List.filterMap_append, filterMap_toList]

-- The producer of a sidecar makes no difference to what it is parsed as.
theorem inferProfile_eq_some (h : (contents config sidecar).filterMap parseConfig = first :: rest) :
    ∃ method, inferProfile config sidecar paths = some { rest.foldl merge first with method } := by
  rw [profiles_eq] at h
  rw [inferProfile, sidecarProfile]
  generalize [configContent config, textContent config].reduceOption.filterMap parseConfig = l at *
  cases hs : (sidecarContent sidecar).bind parseConfig
  case none =>
    rw [hs, Option.toList_none, List.append_nil] at h
    rw [h, Option.bind_eq_bind, Option.bind_none, Option.toList_none, List.append_nil]
    exact ⟨(rest.foldl merge first).method, rfl⟩
  case some profile =>
    rw [hs, Option.toList_some] at h
    cases l
    case nil =>
      cases h
      exact ⟨_, rfl⟩
    case cons head tail =>
      obtain ⟨rfl, rfl⟩ := List.cons.inj h
      have hlast : ∃ method, merge (tail.foldl merge head)
          { profile with method := profile.method.or (sidecar.bind producer) } =
            { merge (tail.foldl merge head) profile with method } := merge_method _
      obtain ⟨method, hm⟩ := hlast
      refine ⟨method, ?_⟩
      simp only [Option.bind_eq_bind, Option.bind_some, Option.pure_def, Option.toList_some,
        List.cons_append, List.foldl_append, List.foldl_cons, List.foldl_nil, List.append_eq]
      exact congrArg some hm

theorem inferProfile_of_nil (h : (contents config sidecar).filterMap parseConfig = []) :
    inferProfile config sidecar paths = filenameProfile paths := by
  rw [profiles_eq, List.append_eq_nil_iff] at h
  obtain ⟨hl, hs⟩ := h
  rw [inferProfile, sidecarProfile, hl, Option.toList_eq_nil_iff.mp hs]
  rfl

theorem exists_inferProfile (h : (contents config sidecar).filterMap parseConfig ≠ []) :
    ∃ profile, inferProfile config sidecar paths = some profile ∧ profile.Formed ∧
      Holds profile (kept (contents config sidecar)) := by
  cases hl : (contents config sidecar).filterMap parseConfig
  case nil => exact absurd hl h
  case cons first rest =>
    have hformed : ∀ profile ∈ first :: rest, profile.Formed := by
      intro profile hm
      rw [← hl, List.mem_filterMap] at hm
      obtain ⟨source, -, hp⟩ := hm
      exact formed_parseConfig hp
    obtain ⟨hf, hr⟩ := List.forall_mem_cons.mp hformed
    obtain ⟨method, hi⟩ := inferProfile_eq_some hl
    have hfold := formed_foldl_merge hf hr
    refine ⟨_, hi, ⟨hfold.configured, hfold.listed⟩, ?_⟩
    rw [kept, hl]
    exact (holds_foldl_merge holds_singleton).of_eq rfl rfl

theorem isAuthoritative_of_filenameProfile (h : filenameProfile paths = some profile) :
    profile.isAuthoritative = false := by
  rw [filenameProfile, Option.bind_eq_bind, Option.bind_eq_some_iff] at h
  obtain ⟨groups, -, h⟩ := h
  split at h
  case isTrue  => cases h
  case isFalse =>
    cases h
    rfl

end Inference

section Exchange

variable {config' sidecar' : Option Json}

theorem contents_of_exchanged (h : Exchanged config sidecar config' sidecar') :
    contents config' sidecar' = exchangedContents config sidecar := by
  rw [contents, exchangedContents, h.same, h.text, h.side]

theorem mem_exchangedContents :
    source ∈ exchangedContents config sidecar ↔ source ∈ contents config sidecar := by
  simp only [contents, exchangedContents, List.reduceOption_mem_iff, List.mem_cons,
    List.not_mem_nil, or_false]
  tauto

theorem declared_exchangedContents : Declared (exchangedContents config sidecar) format ↔
    Declared (contents config sidecar) format :=
  exists_congr fun _ => and_congr_left fun _ => mem_exchangedContents

theorem exists_exchanged (config sidecar : Option Json) :
    ∃ config' sidecar', Exchanged config sidecar config' sidecar' := by
  let field (key : String) (value : Option Json) : List (String × Json) :=
    (value.map fun value => (key, value)).toList
  refine ⟨some (.object (field "quantization_config" (configContent config) ++
      field "text_config" (some (.object (field "quantization_config" (sidecarContent sidecar)))))),
    (textContent config).map fun text => .object [("quantization", text)], ?_, ?_, ?_⟩
  · cases configContent config <;> rfl
  · cases configContent config <;> cases sidecarContent sidecar <;> rfl
  · cases textContent config <;> rfl

theorem profiles_exchangedContents (h : (contents config sidecar).filterMap parseConfig ≠ []) :
    (exchangedContents config sidecar).filterMap parseConfig ≠ [] := by
  simp only [ne_eq, List.filterMap_eq_nil_iff, mem_exchangedContents] at h ⊢
  exact h

end Exchange

section Results

theorem hasNvfp4_iff_kept (hf : profile.Formed) (hh : Holds profile (kept sources)) :
    profile.hasNvfp4 = true ↔ ∃ source ∈ kept sources, source.HasFormat .nvfp4 :=
  hf.hasNvfp4_iff.trans hh.hasFormat_iff

theorem reports_iff (hf : profile.Formed) (hh : Holds profile (kept sources)) :
    Reports sources profile ↔ Shown sources ∧ ∀ format format', Declared sources format →
      Declared sources format' → format ≠ format' → Mixes (kept sources) := by
  constructor
  case mp =>
    intro h
    refine ⟨?_, fun format format' hd hd' hn => hh.mixed.mp (h.mixed format format' hd hd' hn)⟩
    rintro format (rfl | rfl) hd
    · exact (hasNvfp4_iff_kept hf hh).mp (h.nvfp4.mpr hd)
    · exact hh.hasFormat_iff.mp (h.mxfp4.mpr hd)
  case mpr =>
    rintro ⟨hs, hm⟩
    exact {
      configured := hf.configured
      nvfp4      := (hasNvfp4_iff_kept hf hh).trans
        ⟨fun h => declared_of_kept h (by decide), hs .nvfp4 (.inl rfl)⟩
      mxfp4      := hh.hasFormat_iff.trans
        ⟨fun h => declared_of_kept h (by decide), hs .mxfp4 (.inr rfl)⟩
      mixed      := fun format format' hd hd' hn => hh.mixed.mpr (hm format format' hd hd' hn)
    }

theorem not_declared_of_nil (h : sources.filterMap parseConfig = []) :
    ¬Declared sources format := by
  rintro ⟨source, hm, hd⟩
  obtain ⟨profile, hp⟩ := exists_parseConfig hd
  cases (List.filterMap_eq_nil_iff.mp h source hm).symm.trans hp

theorem sameAnswers_iff {sources' : List Json} (hd : ∀ format,
      Declared sources' format ↔ Declared sources format) (hs : Shown sources)
    (hf : profile.Formed) (hh : Holds profile (kept sources))
    (hf' : other.Formed) (hh' : Holds other (kept sources')) :
    SameAnswers profile other ↔
      Shown sources' ∧ (Mixes (kept sources) ↔ Mixes (kept sources')) := by
  constructor
  case mp =>
    intro h
    refine ⟨?_, by rw [← hh.mixed, ← hh'.mixed, h.mixed]⟩
    rintro format (rfl | rfl) hdecl
    · rw [← hasNvfp4_iff_kept hf' hh', ← h.nvfp4, hasNvfp4_iff_kept hf hh]
      exact hs .nvfp4 (.inl rfl) ((hd _).mp hdecl)
    · rw [← hh'.hasFormat_iff, ← h.mxfp4, hh.hasFormat_iff]
      exact hs .mxfp4 (.inr rfl) ((hd _).mp hdecl)
  case mpr =>
    rintro ⟨hs', hm⟩
    have hiff {format : QuantizationFormat} (hv : format = .nvfp4 ∨ format = .mxfp4)
        (hn : format ≠ .other) : (∃ source ∈ kept sources, source.HasFormat format) ↔
          ∃ source ∈ kept sources', source.HasFormat format :=
      ⟨fun h => hs' format hv ((hd _).mpr (declared_of_kept h hn)),
        fun h => hs format hv ((hd _).mp (declared_of_kept h hn))⟩
    refine ⟨Bool.eq_iff_iff.mpr ?_, ?_, Bool.eq_iff_iff.mpr ?_⟩
    · rw [hasNvfp4_iff_kept hf hh, hasNvfp4_iff_kept hf' hh']
      exact hiff (.inl rfl) (by decide)
    · rw [hh.hasFormat_iff, hh'.hasFormat_iff]
      exact hiff (.inr rfl) (by decide)
    · rw [hh.mixed, hh'.mixed]
      exact hm

theorem hidesNothing_of_nil (h : (contents config sidecar).filterMap parseConfig = []) :
    HidesNothing config sidecar paths where
  reports source hm hs := by
    rw [List.filterMap_eq_nil_iff.mp h source hm] at hs
    cases hs
  exchange config' sidecar' hx profile hp := by
    have hn : (contents config' sidecar').filterMap parseConfig = [] := by
      rw [contents_of_exchanged hx, List.filterMap_eq_nil_iff]
      exact fun source hm => List.filterMap_eq_nil_iff.mp h source (mem_exchangedContents.mp hm)
    rw [inferProfile_of_nil h] at hp
    exact ⟨profile, by rw [inferProfile_of_nil hn, hp], rfl, .rfl, rfl⟩
  hints _ := by
    rw [inferProfile_of_nil h]
    exact ⟨rfl, fun profile hp => isAuthoritative_of_filenameProfile hp⟩

theorem unshadowed_of_nil (h : (contents config sidecar).filterMap parseConfig = []) :
    Unshadowed config sidecar where
  shown _ _ hd         := absurd hd (not_declared_of_nil h)
  exchanged _ _ hd     := absurd (declared_exchangedContents.mp hd) (not_declared_of_nil h)
  mixed _ _ hd         := absurd hd (not_declared_of_nil h)
  same                 := by
    have hn : (exchangedContents config sidecar).filterMap parseConfig = [] :=
      List.filterMap_eq_nil_iff.mpr fun source hm =>
        List.filterMap_eq_nil_iff.mp h source (mem_exchangedContents.mp hm)
    rw [kept, kept, h, hn]

def layered (layers : List (String × String)) : Json :=
  .object [("quantized_layers", .object (layers.map fun layer =>
    (layer.1, .object [("quant_algo", .string layer.2)])))]

end Results

end ModelStore
