import WerkModel.Backend.ExpertCheckpoint

-- The tensors of an accepted checkpoint are in their shards and do not overlap, and the experts
-- tile them.
open Checks

namespace Backend.ExpertCheckpoint

variable {loads : List UInt8 → Fallible Value} {shard : Shard} {shards : List Shard}
variable {tensors tensors' : Inventory} {s s' : Inventory × List Span} {entry : String × Value}
variable {name name' : String} {info info' : Info} {header : Dict}

theorem some?_eq_ok {α : Type} {error : String} {o : Option α} {a : α} :
    some? error o = .ok a ↔ o = some a := by
  cases o
  case none => exact iff_of_false nofun nofun
  case some => rw [some?, Except.ok.injEq, Option.some.injEq]

-- A tensor in the data area of its shard, whose size is that of its elements.
structure Placed (shard : Shard) (info : Info) : Prop where
  path  : info.path = shard.path
  start : 8 + shard.headerLength ≤ info.span.start
  stop  : info.span.stop ≤ shard.signature.size
  bytes : ∃ width, info.bytes = info.shape.prod * width

section Headers

-- The span of a tensor in the data area.
def Shard.range (shard : Shard) (info : Info) : Span where
  start  := info.offset - (8 + shard.headerLength)
  length := info.bytes

theorem clear_range_iff (h : Placed shard info) (h' : Placed shard info') :
    (shard.range info).Clear (shard.range info') ↔ info.span.Clear info'.span := by
  have hs := h.start
  have hs' := h'.start
  simp only [Span.Clear, Span.Before, Span.stop, Shard.range, Info.span] at *
  omega

theorem readTensor_cases (h : readTensor shard s entry = .ok s') :
    s' = s ∨ ∃ info, s.1.lookup entry.1 = none ∧ Placed shard info ∧
      s' = (s.1 ++ [(entry.1, info)], s.2 ++ [shard.range info]) := by
  obtain ⟨name, value⟩ := entry
  rw [readTensor] at h
  split at h
  case isTrue => exact .inl (Except.ok.inj h).symm
  case isFalse =>
    rw [ensure_bind_eq_ok] at h
    have ⟨hn, fields, _, h⟩ := h.imp_right bind_eq_ok.mp
    have ⟨_, dtype, _, h⟩ := (ensure_bind_eq_ok.mp h).imp_right bind_eq_ok.mp
    have ⟨width, _, h⟩ := bind_eq_ok.mp h
    have ⟨shape, _, h⟩ := bind_eq_ok.mp h
    have ⟨⟨start, stop⟩, _, h⟩ := bind_eq_ok.mp h
    have ⟨⟨he, hs⟩, h⟩ := ensure_bind_eq_ok.mp h
    let info : Info := {
      path := shard.path, offset := start + 8 + shard.headerLength, bytes := shape.prod * width,
      dtype, shape
    }
    have hr : shard.range info = ⟨start, shape.prod * width⟩ :=
      Span.ext (by simp only [Shard.range, info]; omega) rfl
    refine .inr ⟨info, hn, ⟨rfl, ?_, ?_, width, rfl⟩, hr ▸ (Except.ok.inj h).symm⟩
    · simp only [Info.span, info]
      omega
    · simp only [Info.span, Span.stop, info]
      omega

theorem mem_keys_of_lookup (h : tensors.lookup name = none) : name ∉ tensors.map Prod.fst := by
  rw [List.lookup_eq_none_iff] at h
  intro hm
  have ⟨entry, he, hn⟩ := List.mem_map.mp hm
  exact absurd (h entry he) (by simp [hn])

-- What the loop over a header has read.
structure Added (shard : Shard) (tensors : Inventory) (s : Inventory × List Span)
    (added : Inventory) : Prop where
  tensors : s.1 = tensors ++ added
  ranges  : s.2 = added.map fun entry => shard.range entry.2
  placed  : ∀ entry ∈ added, Placed shard entry.2
  nodup   : (s.1.map Prod.fst).Nodup

theorem Added.readTensor {added : Inventory} (ha : Added shard tensors s added)
    (h : readTensor shard s entry = .ok s') : ∃ added, Added shard tensors s' added := by
  cases readTensor_cases h
  case inl he => exact ⟨added, he ▸ ha⟩
  case inr he =>
    have ⟨info, hn, hp, he⟩ := he
    refine ⟨added ++ [(entry.1, info)], ?_, ?_, ?_, ?_⟩
    · rw [he, ha.tensors, List.append_assoc]
    · rw [he, ha.ranges, List.map_append]
      rfl
    · exact List.forall_mem_append.mpr ⟨ha.placed, List.forall_mem_singleton.mpr hp⟩
    · rw [he, List.map_append, List.map_singleton, ←List.concat_eq_append]
      exact ha.nodup.concat <| mem_keys_of_lookup hn

theorem exists_added (hn : (tensors.map Prod.fst).Nodup)
    (h : header.foldlM (readTensor shard) (tensors, []) = .ok s) :
    ∃ added, Added shard tensors s added := by
  refine foldlM_invariant (I := fun _ s => ∃ added, Added shard tensors s added) h ?_ ?_
  · exact ⟨[], (List.append_nil _).symm, rfl, List.forall_mem_nil _, hn⟩
  · exact fun _ entry s s' ⟨added, ha⟩ h => ha.readTensor h

def Separate (a b : String × Info) : Prop :=
  a.2.path = b.2.path → a.2.span.Clear b.2.span

theorem Separate.of_clear {a b : String × Info} (h : a.2.span.Clear b.2.span) : Separate a b :=
  fun _ => h

instance instSymmSeparate : Std.Symm Separate where
  symm _ _ h hp := (h hp.symm).symm

-- The names of all shards are different, and the tensors of each shard do not overlap.
structure Inventory.Sound (shards : List Shard) (tensors : Inventory) : Prop where
  nodup  : (tensors.map Prod.fst).Nodup
  placed : ∀ entry ∈ tensors, ∃ shard ∈ shards, Placed shard entry.2
  clear  : tensors.Pairwise Separate

theorem Added.pairwise_iff {added : Inventory} (ha : Added shard tensors s added) :
    s.2.Pairwise Span.Clear ↔ added.Pairwise fun a b => a.2.span.Clear b.2.span := by
  rw [ha.ranges, List.pairwise_map]
  constructor
  case mp =>
    intro h
    refine h.imp_of_mem fun hm hm' => (clear_range_iff ?_ ?_).mp
    exacts [ha.placed _ hm, ha.placed _ hm']
  case mpr =>
    intro h
    refine h.imp_of_mem fun hm hm' => (clear_range_iff ?_ ?_).mpr
    exacts [ha.placed _ hm, ha.placed _ hm']

theorem readShard_eq_ok : readShard loads tensors shard = .ok tensors' ↔
    ∃ header s, readHeader loads shard = .ok header ∧
      header.foldlM (readTensor shard) (tensors, []) = .ok s ∧ s.2.Pairwise Span.Clear ∧
      s.1 = tensors' := by
  rw [readShard, bind_eq_ok]
  refine exists_congr fun header => ?_
  rw [bind_eq_ok, ←exists_and_left]
  refine exists_congr fun s => and_congr_right fun _ => and_congr_right fun _ => ?_
  rw [ensure_bind_eq_ok, Span.overlaps_sort_eq_false]
  exact and_congr_right fun _ => ⟨Except.ok.inj, congrArg _⟩

theorem Inventory.Sound.readShard (hs : tensors.Sound shards)
    (hp : shard.path ∉ shards.map Shard.path) (h : readShard loads tensors shard = .ok tensors') :
    tensors'.Sound (shards ++ [shard]) := by
  have ⟨header, s, _, hf, hc, he⟩ := readShard_eq_ok.mp h
  have ⟨added, ha⟩ := exists_added hs.nodup hf
  rw [ha.pairwise_iff] at hc
  cases he
  refine ⟨ha.nodup, ?_, ?_⟩
  · rw [ha.tensors]
    refine List.forall_mem_append.mpr ⟨fun entry he => ?_, fun entry he => ?_⟩
    · have ⟨shard', hm, hp⟩ := hs.placed entry he
      exact ⟨shard', List.mem_append_left _ hm, hp⟩
    · exact ⟨shard, List.mem_append_right _ <| List.mem_singleton_self _, ha.placed entry he⟩
  · rw [ha.tensors, List.pairwise_append]
    have hw : added.Pairwise Separate := hc.imp .of_clear
    refine ⟨hs.clear, hw, fun entry he entry' he' hq => ?_⟩
    -- The tensors that were read before are in other shards.
    have ⟨shard', hm, hp'⟩ := hs.placed entry he
    rw [hp'.path, (ha.placed entry' he').path] at hq
    exact absurd (hq ▸ List.mem_map_of_mem hm) hp

theorem sound_of_shards (hd : (shards.map Shard.path).Nodup)
    (h : shards.foldlM (readShard loads) [] = .ok tensors) : tensors.Sound shards := by
  have hi := foldlM_invariant h
    (I := fun passed tensors => passed <+: shards → tensors.Sound passed) ?_ ?_
  · exact hi List.prefix_rfl
  · exact fun _ => ⟨List.nodup_nil, List.forall_mem_nil _, .nil⟩
  · intro passed shard tensors tensors' hi h hp
    refine (hi <| (List.prefix_append ..).trans hp).readShard ?_ h
    have hn := (hp.map Shard.path).sublist.nodup hd
    rw [List.map_append, List.nodup_append] at hn
    exact fun hm => hn.2.2 _ hm _ (List.mem_singleton_self _) rfl

theorem mem_of_lookup (h : tensors.lookup name = some info) : (name, info) ∈ tensors := by
  have ⟨before, after, ht, _⟩ := List.lookup_eq_some_iff.mp h
  rw [ht]
  exact List.mem_append_right _ List.mem_cons_self

namespace Inventory.Sound

variable (hs : tensors.Sound shards)
include hs

theorem placed_of_lookup (h : tensors.lookup name = some info) :
    ∃ shard ∈ shards, Placed shard info :=
  hs.placed _ <| mem_of_lookup h

theorem clear_of_lookup (h : tensors.lookup name = some info)
    (h' : tensors.lookup name' = some info') (hn : name ≠ name') (hp : info.path = info'.path) :
    info.span.Clear info'.span := by
  have he : (name, info) ≠ (name', info') := fun he => hn (Prod.ext_iff.mp he).1
  exact hs.clear.forall (mem_of_lookup h) (mem_of_lookup h') he hp

end Inventory.Sound

end Headers

section Geometry

variable {config : Config} {layer share : Nat} {projection suffix : String}

-- A tensor with a row for each expert, of which a row has some bytes.
def Share (config : Config) (tensors : Inventory) (name : String) (share : Nat) : Prop :=
  ∃ info, tensors.lookup name = some info ∧ info.shape.head? = some config.experts ∧
    share = info.bytes / config.experts

theorem expertShare_share {inputDims outputDims : Nat} {q : Quantization}
    (h : expertShare config tensors inputDims outputDims q name suffix = .ok share) :
    Share config tensors name share := by
  have ⟨info, hi, h⟩ := bind_eq_ok.mp h
  have ⟨⟨hs, _⟩, h⟩ := ensure_bind_eq_ok.mp h
  exact ⟨info, some?_eq_ok.mp hi, by rw [hs, List.head?_cons], (Except.ok.inj h).symm⟩

theorem readProjection_shares {projections : Quantization × List (String × Nat)}
    (h : readProjection config tensors layer projection = .ok projections) :
    List.Forall₂ (fun name entry => entry.1 = name ∧ Share config tensors name entry.2)
      (suffixes.map (tensorName layer projection)) projections.2 := by
  have ⟨q, _, h⟩ := bind_eq_ok.mp h
  have ⟨_, shares, hs, h⟩ := (ensure_bind_eq_ok.mp h).imp_right bind_eq_ok.mp
  cases Except.ok.inj h
  rw [List.forall₂_map_left_iff]
  refine (mapM_eq_ok.mp hs).imp fun suffix entry he => ?_
  have ⟨share, hs, he⟩ := bind_eq_ok.mp he
  cases Except.ok.inj he
  exact ⟨rfl, expertShare_share hs⟩

def tensorNames (layer : Nat) : List String :=
  projectionNames.flatMap fun projection => suffixes.map (tensorName layer projection)

theorem readLayer_shares {projections : List (Quantization × List (String × Nat))}
    (h : readLayer config tensors layer = .ok projections) :
    List.Forall₂ (fun name entry => entry.1 = name ∧ Share config tensors name entry.2)
      (tensorNames layer) (projections.flatMap Prod.snd) :=
  List.rel_flatMap (mapM_eq_ok.mp h) fun _ _ => readProjection_shares

-- The tensor of a share has exactly the bytes of the experts.
theorem Share.bytes (hs : tensors.Sound shards) (h : tensors.lookup name = some info)
    (hk : Share config tensors name share) :
    info.bytes = config.experts * share := by
  have ⟨info', hl, hd, he⟩ := hk
  cases h.symm.trans hl
  have ⟨_, _, hp⟩ := hs.placed_of_lookup h
  have ⟨width, hb⟩ := hp.bytes
  have hc := List.cons_head?_tail hd
  rw [he, Nat.mul_div_cancel' ?_]
  rw [hb, ←hc, List.prod_cons, Nat.mul_assoc]
  exact Nat.dvd_mul_right ..

end Geometry

section Checkpoint

variable {configData : List UInt8} {files : List Shard} {cacheBytes : Value}
variable {checkpoint : Checkpoint} {share e e' : Nat}

theorem positiveInt_pos {value : Value} {label : String} {n : Nat}
    (h : positiveInt value label = .ok n) : 0 < n := by
  have hf := Option.filter_eq_some_iff.mp <| some?_eq_ok.mp h
  exact Nat.pos_of_ne_zero <| of_decide_eq_true hf.2

theorem readConfig_experts {value : Value} {config : Config} (h : readConfig value = .ok config) :
    0 < config.experts := by
  have ⟨c, _, h⟩ := bind_eq_ok.mp h
  have ⟨_, layers, _, h⟩ := (ensure_bind_eq_ok.mp h).imp_right bind_eq_ok.mp
  have ⟨experts, he, h⟩ := bind_eq_ok.mp h
  have ⟨hidden, _, h⟩ := bind_eq_ok.mp h
  have ⟨intermediate, _, h⟩ := bind_eq_ok.mp h
  have ⟨topK, _, h⟩ := bind_eq_ok.mp h
  have ⟨_, h⟩ := ensure_bind_eq_ok.mp h
  have ⟨_, quant, _, h⟩ := (ensure_bind_eq_ok.mp h).imp_right bind_eq_ok.mp
  have ⟨_, h⟩ := ensure_bind_eq_ok.mp h
  have ⟨_, h⟩ := ensure_bind_eq_ok.mp h
  cases Except.ok.inj h
  exact positiveInt_pos he

-- What the construction of a checkpoint has established.
structure Checkpoint.Sound (checkpoint : Checkpoint) (files : List Shard) : Prop where
  experts : 0 < checkpoint.experts
  tensors : checkpoint.tensors.Sound files
  files   : checkpoint.files = files.map fun shard => (shard.path, shard.signature)
  shares  : ∀ layer < checkpoint.layers, ∃ shares : List (String × Nat),
    List.Forall₂ (fun name entry => entry.1 = name ∧
      Share checkpoint.toConfig checkpoint.tensors name entry.2) (tensorNames layer) shares ∧
    checkpoint.expertBytes[layer]? = some (shares.map Prod.snd).sum

theorem sound_of_new (hd : (files.map Shard.path).Nodup)
    (h : Checkpoint.new loads configData files cacheBytes = .ok checkpoint) :
    checkpoint.Sound files := by
  have ⟨budget, _, h⟩ := bind_eq_ok.mp h
  have ⟨_, value, _, h⟩ := (ensure_bind_eq_ok.mp h).imp_right bind_eq_ok.mp
  have ⟨config, hc, h⟩ := bind_eq_ok.mp h
  have ⟨_, tensors, ht, h⟩ := (ensure_bind_eq_ok.mp h).imp_right bind_eq_ok.mp
  have ⟨layers, hl, h⟩ := bind_eq_ok.mp h
  have ⟨_, h⟩ := seq_eq_ok.mp h
  have ⟨_, h⟩ := ensure_bind_eq_ok.mp h
  cases Except.ok.inj h
  refine ⟨readConfig_experts hc, sound_of_shards hd ht, rfl, fun layer hb => ?_⟩
  have hf := mapM_eq_ok.mp hl
  have hr : layer < (List.range config.layers).length := by rwa [List.length_range]
  have hl : layer < layers.length := hf.length_eq ▸ hr
  have hg := readLayer_shares <| hf.get hr hl
  rw [List.get_eq_getElem, List.getElem_range] at hg
  refine ⟨_, hg, ?_⟩
  rw [List.getElem?_map, List.getElem?_eq_getElem hl, List.map_flatMap]
  rfl

theorem exists_signature (hm : shard ∈ files)
    (hf : checkpoint.files = files.map fun shard => (shard.path, shard.signature)) :
    ∃ signature, checkpoint.files.lookup shard.path = some signature := by
  have he : (shard.path, shard.signature) ∈ checkpoint.files := hf ▸ List.mem_map_of_mem hm
  exact Option.isSome_iff_exists.mp <| List.lookup_isSome_iff.mpr ⟨_, he, beq_self_eq_true _⟩

-- An expert is a row of its tensors.
theorem exists_tensor (hs : checkpoint.Sound files)
    (hk : Share checkpoint.toConfig checkpoint.tensors name share)
    (hl : checkpoint.tensors.lookup name = some info) (he : e < checkpoint.experts) :
    ∃ row, checkpoint.tensor name (some e) = .ok row ∧ row.path = info.path ∧
      row.span = info.span.row share e := by
  have ⟨shard, hm, hp⟩ := hs.tensors.placed_of_lookup hl
  have ⟨signature, hg⟩ := exists_signature hm hs.files
  have ⟨info', hl', hd, hh⟩ := hk
  cases hl.symm.trans hl'
  have hd' : info.shape.headD 0 = checkpoint.experts := by rw [List.headD_eq_head?_getD, hd]; rfl
  have hne : info.shape ≠ [] := fun hn => by simp [hn] at hd
  refine ⟨_, bind_eq_ok.mpr ⟨info, some?_eq_ok.mpr hl, bind_eq_ok.mpr ⟨signature,
    some?_eq_ok.mpr (hp.path ▸ hg), ensure_bind_eq_ok.mpr ⟨hd' ▸ he, ensure_bind_eq_ok.mpr
    ⟨Nat.le_refl _, ensure_bind_eq_ok.mpr ⟨⟨hne, ?_⟩, rfl⟩⟩⟩⟩⟩, rfl, ?_⟩
  · simp only [hd']
    omega
  · simp only [Tensor.span, Info.span, Span.row, hd', hh, Nat.one_mul]

-- The experts of a tensor.
structure Tiled (checkpoint : Checkpoint) (name : String) (info : Info) : Prop where
  bytes : info.bytes = checkpoint.experts * (info.bytes / checkpoint.experts)
  rows  : ∀ e < checkpoint.experts, ∃ row, checkpoint.tensor name (some e) = .ok row ∧
    row.path = info.path ∧ row.size = info.bytes / checkpoint.experts ∧
    ∀ byte ∈ row.span, byte ∈ info.span
  apart : ∀ e < checkpoint.experts, ∀ e' < checkpoint.experts, e ≠ e' → ∀ row row',
    checkpoint.tensor name (some e) = .ok row → checkpoint.tensor name (some e') = .ok row' →
    row.span.Apart row'.span
  cover : ∀ byte ∈ info.span, ∃ e < checkpoint.experts, ∃ row,
    checkpoint.tensor name (some e) = .ok row ∧ byte ∈ row.span

theorem tiled (hs : checkpoint.Sound files)
    (hk : Share checkpoint.toConfig checkpoint.tensors name share)
    (hl : checkpoint.tensors.lookup name = some info) : Tiled checkpoint name info := by
  have hb := hk.bytes hs.tensors hl
  have hd : info.bytes / checkpoint.experts = share := by
    rw [hb]
    exact Nat.mul_div_cancel_left _ hs.experts
  have hc (byte) : byte ∈ info.span ↔ ∃ e < checkpoint.experts, byte ∈ info.span.row share e :=
    Span.mem_iff_exists_row hb
  constructor
  case bytes => rwa [hd]
  case rows =>
    intro e he
    have ⟨row, hr, hp, hw⟩ := exists_tensor hs hk hl he
    refine ⟨row, hr, hp, ?_, fun byte hm => (hc byte).mpr ⟨e, he, hw ▸ hm⟩⟩
    exact (congrArg Span.length hw).trans hd.symm
  case apart =>
    intro e he e' he' hn row row' hr hr'
    have ⟨_, ho, _, hw⟩ := exists_tensor hs hk hl he
    have ⟨_, ho', _, hw'⟩ := exists_tensor hs hk hl he'
    cases hr.symm.trans ho
    cases hr'.symm.trans ho'
    rw [hw, hw']
    exact Span.row_apart hn
  case cover =>
    intro byte hm
    have ⟨e, he, hm⟩ := (hc byte).mp hm
    have ⟨row, hr, _, hw⟩ := exists_tensor hs hk hl he
    exact ⟨e, he, row, hr, hw ▸ hm⟩

-- The parts of an expert add up to what the layer accounts for it.
theorem exists_expert {layer : Nat} (hs : checkpoint.Sound files) (hl : layer < checkpoint.layers)
    (he : e < checkpoint.experts) : ∃ rows, checkpoint.expert layer e = .ok rows ∧
      checkpoint.expertBytes[layer]? = some (rows.map Tensor.size).sum := by
  have ⟨shares, hf, hb⟩ := hs.shares layer hl
  suffices h : ∃ rows, List.Forall₂ (fun name row => checkpoint.tensor name (some e) = .ok row)
      (tensorNames layer) rows ∧ rows.map Tensor.size = shares.map Prod.snd by
    have ⟨rows, hr, hm⟩ := h
    exact ⟨rows, mapM_eq_ok.mpr hr, hm ▸ hb⟩
  clear hb
  generalize tensorNames layer = names at hf ⊢
  induction hf
  case nil => exact ⟨[], .nil, rfl⟩
  case cons name share names shares hk _ hi =>
    have ⟨rows, hr, hm⟩ := hi
    have ⟨info, hl, _⟩ := hk.2
    have ⟨row, ho, _, hw⟩ := exists_tensor hs hk.2 hl he
    refine ⟨row :: rows, .cons ho hr, ?_⟩
    rw [List.map_cons, List.map_cons, hm]
    exact congrArg (· :: _) (congrArg Span.length hw)

theorem mem_tensorNames {layer : Nat} {projection suffix : String}
    (hp : projection ∈ projectionNames) (hx : suffix ∈ suffixes) :
    tensorName layer projection suffix ∈ tensorNames layer :=
  List.mem_flatMap.mpr ⟨projection, hp, List.mem_map_of_mem hx⟩

theorem exists_share {names : List String} {shares : List (String × Nat)}
    (hf : List.Forall₂ (fun name entry => entry.1 = name ∧ Share checkpoint.toConfig
      checkpoint.tensors name entry.2) names shares) (hm : name ∈ names) :
    ∃ share, Share checkpoint.toConfig checkpoint.tensors name share := by
  induction hf
  case nil => cases hm
  case cons entry names shares hk _ hi =>
    cases hm
    case head    => exact ⟨_, hk.2⟩
    case tail hm => exact hi hm

theorem readShard_accepts_iff (hh : readHeader loads shard = .ok header)
    (hf : header.foldlM (readTensor shard) (tensors, []) = .ok s) :
    (∃ tensors', readShard loads tensors shard = .ok tensors') ↔
      s.2.Pairwise fun a b => a.Apart b ∧ ¬a.Splits b ∧ ¬b.Splits a := by
  simp only [readShard_eq_ok, ←Span.clear_iff]
  constructor
  case mp =>
    intro ⟨_, _, _, hh', hf', hc, _⟩
    cases hh.symm.trans hh'
    cases hf.symm.trans hf'
    exact hc
  case mpr => exact fun hc => ⟨s.1, header, s, hh, hf, hc, rfl⟩

-- Overlaps between any tensors of a shard are found between neighbours in the order of their spans.
-- Beside them, only an empty tensor between the bytes of another one is rejected.
theorem checkpoint_geometry (hd : (files.map Shard.path).Nodup)
    (h : Checkpoint.new loads configData files cacheBytes = .ok checkpoint) :
    (∀ shard tensors header s, readHeader loads shard = .ok header →
      header.foldlM (readTensor shard) (tensors, []) = .ok s →
      ((∃ tensors', readShard loads tensors shard = .ok tensors') ↔
        s.2.Pairwise fun a b => a.Apart b ∧ ¬a.Splits b ∧ ¬b.Splits a)) ∧
    (∀ name info, checkpoint.tensors.lookup name = some info → ∃ shard ∈ files,
      shard.path = info.path ∧ 8 + shard.headerLength ≤ info.span.start ∧
      info.span.stop ≤ shard.signature.size) ∧
    (∀ name name' info info', checkpoint.tensors.lookup name = some info →
      checkpoint.tensors.lookup name' = some info' → name ≠ name' → info.path = info'.path →
      info.span.Apart info'.span) ∧
    (∀ layer < checkpoint.layers, ∀ projection ∈ projectionNames, ∀ suffix ∈ suffixes, ∃ info,
      checkpoint.tensors.lookup (tensorName layer projection suffix) = some info ∧
      Tiled checkpoint (tensorName layer projection suffix) info) ∧
    ∀ layer < checkpoint.layers, ∀ e < checkpoint.experts, ∃ rows,
      checkpoint.expert layer e = .ok rows ∧
      checkpoint.expertBytes[layer]? = some (rows.map Tensor.size).sum := by
  have hs := sound_of_new hd h
  refine ⟨fun _ _ _ _ => readShard_accepts_iff, ?_, ?_, ?_, fun _ hl _ => exists_expert hs hl⟩
  · intro name info hl
    have ⟨shard, hm, hp⟩ := hs.tensors.placed_of_lookup hl
    exact ⟨shard, hm, hp.path.symm, hp.start, hp.stop⟩
  · intro name name' info info' hl hl' hn hp
    exact (Span.clear_iff.mp <| hs.tensors.clear_of_lookup hl hl' hn hp).1
  · intro layer hl projection hp suffix hx
    have ⟨shares, hf, _⟩ := hs.shares layer hl
    have ⟨share, hk⟩ := exists_share hf <| mem_tensorNames hp hx
    have ⟨info, hk'⟩ := hk
    exact ⟨info, hk'.1, tiled hs hk hk'.1⟩

end Checkpoint

-- Checkpoints of one shard.

def ascii (text : List Char) : List UInt8 :=
  text.map fun c => .ofNat c.toNat

def field (name dtype : String) (shape : List Nat) (start stop : Nat) : String × Value :=
  (name, .dict [("dtype", .str dtype), ("shape", .list (shape.map fun n => .int n)),
    ("data_offsets", .list [.int start, .int stop])])

def fieldText (name dtype : String) (shape : List Nat) (start stop : Nat) : List Char :=
  "\"".toList ++ name.toList ++ "\":\x7b\"dtype\":\"".toList ++ dtype.toList ++
    "\",\"shape\":[".toList ++ [','].intercalate (shape.map fun n => (toString n).toList) ++
    "],\"data_offsets\":[".toList ++ (toString start).toList ++ [','] ++
    (toString stop).toList ++ "]\x7d".toList

def shardOf (text : List Char) (bytes : Nat) : Shard where
  path      := "/models/model.safetensors"
  name      := "model.safetensors"
  signature := ⟨1, 2, 8 + text.length + bytes, 3⟩
  content   :=
    [.ofNat (text.length % 256), .ofNat (text.length / 256), 0, 0, 0, 0, 0, 0] ++ ascii text

def loadsOf (values : List (List Char × Value)) (text : List UInt8) : Fallible Value :=
  some? "Expecting value" <| (values.find? fun value => ascii value.1 = text).map Prod.snd

def emptyInsideText : List Char :=
  "\x7b".toList ++ fieldText "model.a" "U8" [10] 0 10 ++ [','] ++
    fieldText "model.b" "U8" [0] 5 5 ++ "\x7d".toList

def emptyInside : List (String × Value) :=
  [field "model.a" "U8" [10] 0 10, field "model.b" "U8" [0] 5 5]

-- Two tensors that share no byte, and are rejected.
theorem empty_inside_rejected :
    (Span.mk 0 10).Apart (Span.mk 5 0) ∧
    (emptyInside.foldlM (readTensor (shardOf emptyInsideText 10)) ([], [])).map Prod.snd =
      .ok [⟨0, 10⟩, ⟨5, 0⟩] ∧
    readShard (loadsOf [(emptyInsideText, .dict emptyInside)]) [] (shardOf emptyInsideText 10) =
      .error "overlapping tensor data in model.safetensors" := by
  refine ⟨fun byte _ h => ?_, by decide +kernel, by decide +kernel⟩
  exact absurd (Span.mem_def.mp h) (by simp only [Span.stop]; omega)

def smallFields : List (String × String × List Nat × Nat × Nat) :=
  projectionNames.zipIdx.flatMap fun (projection, i) =>
    [(tensorName 0 projection "weight", "U32", [1, 32, 8], i * 1152, i * 1152 + 1024),
      (tensorName 0 projection "scales", "F16", [1, 32, 1], i * 1152 + 1024, i * 1152 + 1088),
      (tensorName 0 projection "biases", "F16", [1, 32, 1], i * 1152 + 1088, i * 1152 + 1152)]

def smallText : List Char :=
  "\x7b".toList ++ [','].intercalate (smallFields.map fun (name, dtype, shape, start, stop) =>
    fieldText name dtype shape start stop) ++ "\x7d".toList

def smallHeader : List (String × Value) :=
  smallFields.map fun (name, dtype, shape, start, stop) => field name dtype shape start stop

def smallConfigText : List Char :=
  ("\x7b\"model_type\":\"deepseek_v4\",\"num_hidden_layers\":1,\"n_routed_experts\":1," ++
  "\"hidden_size\":32,\"moe_intermediate_size\":32,\"num_experts_per_tok\":1," ++
  "\"quantization\":\x7b\"bits\":8,\"group_size\":32\x7d\x7d").toList

def smallConfig : List (String × Value) :=
  [("model_type", .str "deepseek_v4"), ("num_hidden_layers", .int 1), ("n_routed_experts", .int 1),
    ("hidden_size", .int 32), ("moe_intermediate_size", .int 32), ("num_experts_per_tok", .int 1),
    ("quantization", .dict [("bits", .int 8), ("group_size", .int 32)])]

def smallLoads : List UInt8 → Fallible Value :=
  loadsOf [(smallText, .dict smallHeader), (smallConfigText, .dict smallConfig)]

def smallNew : Fallible Checkpoint :=
  Checkpoint.new smallLoads (ascii smallConfigText) [shardOf smallText 3456] (.int 0)

theorem smallNew_isOk : smallNew.isOk := by
  decide +kernel

theorem checkpoint_geometry_small : ∃ checkpoint, smallNew = .ok checkpoint ∧
    ∀ layer < checkpoint.layers, ∀ e < checkpoint.experts, ∃ rows,
      checkpoint.expert layer e = .ok rows ∧
      checkpoint.expertBytes[layer]? = some (rows.map Tensor.size).sum := by
  have hk := smallNew_isOk
  cases h : smallNew
  case error => rw [h] at hk; cases hk
  case ok checkpoint =>
    have hd : ([shardOf smallText 3456].map Shard.path).Nodup := List.nodup_singleton _
    have ⟨_, _, _, _, he⟩ := checkpoint_geometry hd h
    exact ⟨checkpoint, rfl, he⟩

end Backend.ExpertCheckpoint
