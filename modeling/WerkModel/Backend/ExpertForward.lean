import WerkModel.Backend.ExpertActionsRuns
import WerkModel.Backend.StreamedExpertsRouting

-- The output of a pass over the streamed experts of a layer. The experts of a group are evaluated
-- for some of their rows at a time.
open Checks

namespace Backend
namespace ExpertManager

open StreamedExperts

variable {V W : Type}

-- The sizes of a pass with its routes, of which there are as many for each row, and the outcomes of
-- its reads and evaluations.
structure Inputs (V : Type) where
  layer          : Nat
  routes         : List (List Nat)
  topK           : Nat
  rows           : Nat
  width          : Nat
  itemsize       : Nat
  intermediate   : Nat
  workspaceBytes : Nat
  prefetch       : List (Nat × Nat) → Except String Unit
  loads          : Nat × Nat → Except String V
  times          : Nat × Nat → Nat
  evaluate       : List (Nat × Nat) → Except String Unit

namespace Inputs

variable (inputs : Inputs V) (g : Geometry) (m : Manager V) (f : Nat → Nat → W)

def bytesPerRow (group : List (Nat × Nat)) : Nat :=
  group.length * max inputs.width inputs.intermediate * 4 * 4

def chunkSize (group : List (Nat × Nat)) : Nat :=
  min 128 (inputs.workspaceBytes / 4 / inputs.bytesPerRow group)

def pass : Pass V where
  layer     := inputs.layer
  routes    := inputs.routes.flatten
  shaped    := inputs.routes.length = inputs.rows
  workspace := ensure
    (inputs.routes.length * inputs.topK * inputs.width * inputs.itemsize ≤
      inputs.workspaceBytes / 2)
    "expert prefill batch exceeds streaming workspace; reduce prefill chunk size"
  prefetch  := inputs.prefetch
  loads     := inputs.loads
  times     := inputs.times
  evaluate group := do
    ensure (inputs.bytesPerRow group ≤ inputs.workspaceBytes / 4)
      "expert activation exceeds streaming workspace"
    inputs.evaluate group

-- The values that a group adds to the output, in chunks of some rows.
def addGroup (size : Nat) (output : Nat → List W) (group : List (Nat × Nat)) : Nat → List W :=
  let experts := group.map Prod.snd
  let longest := (experts.map fun expert => (nonzero inputs.routes expert).length).foldl max 0
  (Call.offsets size longest).foldl (fun output offset =>
    experts.foldl (fun output expert =>
      Scatter.add output (chunkAdditions f inputs.routes inputs.topK size offset expert))
      output) output

def addGroups (size : List (Nat × Nat) → Nat) (groups : List (List (Nat × Nat))) : Nat → List W :=
  groups.foldl (fun output group => inputs.addGroup f (size group) output group) fun _ => []

-- The output once all groups have been evaluated.
def forward : Except Failure (Nat → List W) × Manager V :=
  match m.forward g inputs.pass with
  | (.error failure, m') => (.error failure, m')
  | (.ok (), m')         =>
    (.ok (inputs.addGroups f inputs.chunkSize (m.passGroups g inputs.pass).1), m')

-- One value for each route, that of its expert for its row.
def dense (position : Nat) : List W :=
  match inputs.routes[position / inputs.topK]? with
  | none       => []
  | some route =>
    match route[position % inputs.topK]? with
    | none        => []
    | some expert => [f expert (position / inputs.topK)]

end Inputs

section Groups

variable {g : Geometry} {m : Manager V} {limit layer used : Nat} {experts : List Nat}
variable {group : List (Nat × Nat)}

-- The groups take the experts in order.
theorem flatten_groups (h : (m.groups g limit layer experts group used).2 = .ok ()) :
    (m.groups g limit layer experts group used).1.flatten =
      group ++ experts.map (Prod.mk layer) := by
  induction experts generalizing group used
  case nil =>
    rw [Manager.groups]
    split
    case isTrue he  => rw [he]; rfl
    case isFalse he => simp
  case cons expert experts hi =>
    rw [Manager.groups] at h ⊢
    by_cases hflush : group ≠ [] ∧ (group.length = limit ∨
        m.effective < used + m.groupBytes g (layer, expert))
    case pos =>
      simp only [if_pos hflush] at h ⊢
      split at h
      case isTrue => cases h
      case isFalse hn =>
        rw [if_neg hn, List.flatten_append, hi h]
        simp
    case neg =>
      simp only [if_neg hflush] at h ⊢
      split at h
      case isTrue => cases h
      case isFalse hn =>
        rw [if_neg hn, List.flatten_append, hi h]
        simp

theorem bounded_groups (hl : 0 < limit) (hg : group.length ≤ limit) :
    ∀ other ∈ (m.groups g limit layer experts group used).1, other ≠ [] ∧ other.length ≤ limit := by
  induction experts generalizing group used
  case nil =>
    rw [Manager.groups]
    split
    case isTrue     => exact fun _ hm => absurd hm List.not_mem_nil
    case isFalse he => exact fun other hm => List.mem_singleton.mp hm ▸ ⟨he, hg⟩
  case cons expert experts hi =>
    rw [Manager.groups]
    by_cases hflush : group ≠ [] ∧ (group.length = limit ∨
        m.effective < used + m.groupBytes g (layer, expert))
    case pos =>
      have hself : ∀ other ∈ [group], other ≠ [] ∧ other.length ≤ limit := fun other hm =>
        List.mem_singleton.mp hm ▸ ⟨hflush.1, hg⟩
      simp only [if_pos hflush]
      split
      case isTrue => exact hself
      case isFalse =>
        intro other hm
        obtain hm | hm := List.mem_append.mp hm
        case inl => exact hself other hm
        case inr =>
          have hone : ([] ++ [(layer, expert)]).length ≤ limit := hl
          exact hi hone other hm
    case neg =>
      simp only [if_neg hflush]
      split
      case isTrue => exact fun _ hm => absurd hm List.not_mem_nil
      case isFalse =>
        have hlt : (group ++ [(layer, expert)]).length ≤ limit := by
          rw [List.length_append, List.length_singleton]
          by_cases he : group = []
          case pos =>
            rw [he]
            exact hl
          case neg =>
            have hne : group.length ≠ limit := fun h => hflush ⟨he, .inl h⟩
            omega
        intro other hm
        exact hi hlt other ((List.mem_append.mp hm).resolve_left List.not_mem_nil)

end Groups

section Outputs

variable {inputs : Inputs V} {f : Nat → Nat → W} {size : List (Nat × Nat) → Nat}
variable {groups : List (List (Nat × Nat))} {position row slot expert : Nat}

theorem foldl_add {ι : Type} (additions : ι → List (Nat × W)) (items : List ι)
    (output : Nat → List W) :
    items.foldl (fun output item => Scatter.add output (additions item)) output =
      Scatter.add output (items.flatMap additions) := by
  induction items generalizing output
  case nil => exact Scatter.add_nil.symm
  case cons item items hi => rw [List.foldl_cons, hi, Scatter.add_append, List.flatMap_cons]

-- A group adds the values of its experts for all of their rows.
theorem addGroup_eq (output : Nat → List W) (group : List (Nat × Nat)) {size : Nat}
    (hs : 0 < size) :
    ∃ added : List (Nat × W),
      added.Perm (additions f inputs.routes inputs.topK (group.map Prod.snd)) ∧
      inputs.addGroup f size output group = Scatter.add output added := by
  let lengths := (group.map Prod.snd).map fun expert => (nonzero inputs.routes expert).length
  have hl : ∀ expert ∈ group.map Prod.snd,
      (nonzero inputs.routes expert).length ≤ lengths.foldl max 0 := by
    intro expert he
    have hm : (nonzero inputs.routes expert).length ∈ lengths := List.mem_map_of_mem he
    rw [List.foldl_max_eq_max (List.ne_nil_of_mem hm)]
    exact (List.le_max_of_mem hm).trans (le_max_right ..)
  refine ⟨_, additions_chunks hs hl, ?_⟩
  simp only [Inputs.addGroup, foldl_add]
  rfl

theorem addGroups_eq (hs : ∀ group ∈ groups, 0 < size group) :
    ∃ added : List (Nat × W),
      added.Perm (additions f inputs.routes inputs.topK (groups.flatten.map Prod.snd)) ∧
      inputs.addGroups f size groups = Scatter.add (fun _ => []) added := by
  induction groups using List.reverseRecOn
  case nil => exact ⟨[], .nil, Scatter.add_nil.symm⟩
  case append_singleton groups group hi =>
    obtain ⟨before, hb, he⟩ := hi fun other hm => hs other (List.mem_append_left _ hm)
    obtain ⟨added, ha, ho⟩ := @addGroup_eq V W inputs f (inputs.addGroups f size groups) group _
      (hs group (List.mem_append_right _ (List.mem_singleton_self group)))
    refine ⟨before ++ added, ?_, ?_⟩
    case refine_1 =>
      have happ : additions f inputs.routes inputs.topK
          (groups.flatten.map Prod.snd ++ group.map Prod.snd) =
            additions f inputs.routes inputs.topK (groups.flatten.map Prod.snd) ++
              additions f inputs.routes inputs.topK (group.map Prod.snd) :=
        List.flatMap_append
      rw [List.flatten_append, List.flatten_singleton, List.map_append, happ]
      exact hb.append ha
    case refine_2 =>
      rw [Inputs.addGroups, List.foldl_append]
      change inputs.addGroup f (size group) (inputs.addGroups f size groups) group = _
      rw [ho, he, Scatter.add_append]

-- The values are added at the positions of their routes.
theorem position_of_mem {value : W} {experts : List Nat}
    (hk : ∀ route ∈ inputs.routes, route.length = inputs.topK)
    (hm : (position, value) ∈ additions f inputs.routes inputs.topK experts) :
    ∃ route expert, inputs.routes[position / inputs.topK]? = some route ∧
      route[position % inputs.topK]? = some expert := by
  obtain ⟨expert, -, hm⟩ := List.mem_flatMap.mp hm
  obtain ⟨⟨row, slot⟩, hn, he⟩ := List.mem_map.mp hm
  obtain ⟨route, hr, hs⟩ := mem_nonzero.mp hn
  have hlt : slot < inputs.topK := by
    rw [←hk route (List.mem_of_getElem? hr)]
    exact (List.getElem?_eq_some_iff.mp hs).choose
  have hposition : row * inputs.topK + slot = position := congrArg Prod.fst he
  obtain ⟨rfl, rfl⟩ := positions_injective hlt (Nat.mod_lt position (Nat.zero_lt_of_lt hlt))
    (hposition.trans (Nat.div_add_mod' position inputs.topK).symm)
  exact ⟨route, expert, hr, hs⟩

-- What has been added once for each route is the dense output.
theorem add_eq_dense {added : List (Nat × W)} {experts : List Nat}
    (hk : ∀ route ∈ inputs.routes, route.length = inputs.topK)
    (hp : experts.Perm (unique inputs.routes))
    (ha : added.Perm (additions f inputs.routes inputs.topK experts)) :
    Scatter.add (fun _ => []) added position = inputs.dense f position := by
  have hn : (added.map Prod.fst).Nodup := (ha.map Prod.fst).nodup_iff.mpr
    (nodup_additions (hp.nodup_iff.mpr nodup_unique) hk)
  have hnone : (∀ route expert, inputs.routes[position / inputs.topK]? = some route →
      route[position % inputs.topK]? ≠ some expert) →
        Scatter.add (fun _ => []) added position = [] := by
    intro hno
    have hf : added.filter (·.1 = position) = [] := by
      refine List.filter_eq_nil_iff.mpr fun addition hm he => ?_
      have he : addition.1 = position := of_decide_eq_true he
      have hm : (position, addition.2) ∈ added := he ▸ hm
      obtain ⟨route, expert, hr, hs⟩ := position_of_mem hk (ha.mem_iff.mp hm)
      exact hno route expert hr hs
    rw [Scatter.add, hf]
    rfl
  rw [Inputs.dense]
  cases hr : inputs.routes[position / inputs.topK]?
  case none =>
    refine hnone fun route expert he => ?_
    rw [hr] at he
    cases he
  case some route =>
    dsimp only
    cases hs : route[position % inputs.topK]?
    case none =>
      refine hnone fun other expert he hs' => ?_
      obtain rfl := Option.some.inj (hr.symm.trans he)
      cases hs.symm.trans hs'
    case some expert =>
      have he : expert ∈ experts := hp.mem_iff.mpr <| mem_unique.mpr
        ⟨route, List.mem_of_getElem? hr, List.mem_of_getElem? hs⟩
      have hm := ha.mem_iff.mpr
        (@mem_additions W inputs.routes expert _ _ _ experts route f hr hs he)
      rw [Nat.div_add_mod'] at hm
      exact Scatter.add_of_nodup hn hm

end Outputs

section Claims

variable {g : Geometry} {m : Manager V}

-- The experts of the groups are those of the routes in order.
structure Grouped (g : Geometry) (m : Manager V) (inputs : Inputs V) (limit : Nat)
    (groups : List (List (Nat × Nat))) : Prop where
  nonempty  : ∀ group ∈ groups, group ≠ []
  limit     : ∀ group ∈ groups, group.length ≤ limit
  fits      : ∀ group ∈ groups, g.bytes (m.pinned ∪ group.toFinset) ≤ m.effective
  layer     : ∀ key ∈ groups.flatten, key.1 = inputs.layer
  ascending : (groups.flatten.map Prod.snd).Pairwise (· < ·)
  covers    : ∀ expert, expert ∈ groups.flatten.map Prod.snd ↔
    ∃ route ∈ inputs.routes, expert ∈ route

theorem unique_ascending {routes : List (List Nat)} : (unique routes).Pairwise (· < ·) := by
  have hs : (unique routes).Pairwise (· ≤ ·) := List.pairwise_insertionSort ..
  refine (hs.and nodup_unique).imp fun h => lt_of_le_of_ne h.1 h.2

theorem Settled.grouped (s : Settled g m) {inputs : Inputs V} {limit : Nat} (hlimit : 0 < limit)
    (hl : inputs.layer ∈ g.expertBytes)
    (hr : ∀ route ∈ inputs.routes, ∀ expert ∈ route, expert < g.experts) :
    (m.groups g limit inputs.layer (unique inputs.routes) [] (g.bytes m.pinned)).2 = .ok () ∧
      (m.groups g limit inputs.layer (unique inputs.routes) [] (g.bytes m.pinned)).1.flatten =
        (unique inputs.routes).map (Prod.mk inputs.layer) ∧
      Grouped g m inputs limit
        (m.groups g limit inputs.layer (unique inputs.routes) [] (g.bytes m.pinned)).1 := by
  have hk : ∀ expert ∈ unique inputs.routes, g.Known (inputs.layer, expert) := fun expert hm => by
    obtain ⟨route, hroute, he⟩ := mem_unique.mp hm
    exact ⟨hl, hr route hroute expert he⟩
  obtain ⟨hok, hall⟩ := @Settled.groups V g m [] inputs.layer (g.bytes m.pinned) _ s limit
    hk rfl s.bytes_pinned_le
  have hflat := flatten_groups hok
  have hbound := @bounded_groups V g m limit inputs.layer (g.bytes m.pinned)
    (unique inputs.routes) [] hlimit (Nat.zero_le _)
  have hsnd : ((unique inputs.routes).map (Prod.mk inputs.layer)).map Prod.snd =
      unique inputs.routes := by
    rw [List.map_map]
    exact List.map_id _
  rw [List.nil_append] at hflat
  refine ⟨hok, hflat, {
    nonempty  := fun group hm => (hbound group hm).1
    limit     := fun group hm => (hbound group hm).2
    fits      := fun group hm => (bytes_le_cost group).trans (hall group hm)
    layer     := fun key hm => ?_
    ascending := ?_
    covers    := fun expert => ?_ }⟩
  case refine_1 =>
    rw [hflat] at hm
    obtain ⟨expert, -, rfl⟩ := List.mem_map.mp hm
    rfl
  case refine_2 =>
    rw [hflat, hsnd]
    exact unique_ascending
  case refine_3 =>
    rw [hflat, hsnd]
    exact mem_unique

-- A pass goes on only after a group has been evaluated.
theorem evaluate_eq_ok {pass : Pass V} {groups : List (List (Nat × Nat))}
    (h : (m.runGroups g pass groups).1 = .ok ()) :
    ∀ group ∈ groups, pass.evaluate group = .ok () := by
  induction groups generalizing m
  case nil => exact fun _ hm => absurd hm List.not_mem_nil
  case cons group groups hi =>
    rw [Manager.runGroups] at h
    have hg : (m.runGroup g pass group).1 = .ok () → pass.evaluate group = .ok () := fun he => by
      rw [Manager.runGroup] at he
      split at he
      case h_1 => cases he
      case h_2 =>
        split at he
        case h_1 => cases he
        case h_2 =>
          cases hev : pass.evaluate group
          case error error =>
            rw [hev] at he
            cases he
          case ok => rfl
    generalize m.runGroup g pass group = result at h hg
    obtain ⟨failure | _, m'⟩ := result
    case error => cases h
    case ok =>
      intro other hm
      obtain rfl | hm := List.mem_cons.mp hm
      case inl => exact hg rfl
      case inr => exact hi h other hm

-- A group that has been evaluated fits into the workspace, some rows at a time.
theorem chunkSize_pos {inputs : Inputs V} {group : List (Nat × Nat)} (hi : 0 < inputs.intermediate)
    (hg : group ≠ []) (h : inputs.pass.evaluate group = .ok ()) : 0 < inputs.chunkSize group := by
  obtain ⟨hle, -⟩ := ensure_bind_eq_ok.mp h
  have hrow : 0 < inputs.bytesPerRow group := by
    have hlen := List.length_pos_iff.mpr hg
    have hmax : 0 < max inputs.width inputs.intermediate := lt_max_of_lt_right hi
    rw [Inputs.bytesPerRow]
    positivity
  exact lt_min (by decide) (Nat.div_pos hle hrow)

theorem Settled.addGroups (s : Settled g m) {inputs : Inputs V} {limit : Nat} (hlimit : 0 < limit)
    (hl : inputs.layer ∈ g.expertBytes) (hk : ∀ route ∈ inputs.routes, route.length = inputs.topK)
    (hr : ∀ route ∈ inputs.routes, ∀ expert ∈ route, expert < g.experts) (f : Nat → Nat → W) :
    ∃ groups, m.groups g limit inputs.layer (unique inputs.routes) [] (g.bytes m.pinned) =
        (groups, .ok ()) ∧ Grouped g m inputs limit groups ∧
      ∀ size, (∀ group ∈ groups, 0 < size group) →
        inputs.addGroups f size groups = inputs.dense f := by
  obtain ⟨hok, hflat, hg⟩ := s.grouped hlimit hl hr
  refine ⟨_, Prod.ext rfl hok, hg, fun size hs => ?_⟩
  have hsnd : ((unique inputs.routes).map (Prod.mk inputs.layer)).map Prod.snd =
      unique inputs.routes := by
    rw [List.map_map]
    exact List.map_id _
  obtain ⟨added, ha, he⟩ := @addGroups_eq V W inputs f size _ hs
  rw [hflat, hsnd] at ha
  funext position
  rw [he]
  exact add_eq_dense hk (.refl _) ha

theorem streamed_forward_dense (ha : g.largest ≤ g.cacheBytes)
    (r : (managers g : System (Manager V) (Event V) (Except Failure Unit)).Reachable m)
    {inputs : Inputs V} (hi : 0 < inputs.intermediate) (hl : inputs.layer ∈ g.expertBytes)
    (hk : ∀ route ∈ inputs.routes, route.length = inputs.topK)
    (hr : ∀ route ∈ inputs.routes, ∀ expert ∈ route, expert < g.experts) (f : Nat → Nat → W) :
    (∀ limit, 0 < limit →
      ∃ groups, m.groups g limit inputs.layer (unique inputs.routes) [] (g.bytes m.pinned) =
          (groups, .ok ()) ∧ Grouped g m inputs limit groups ∧
        ∀ size, (∀ group ∈ groups, 0 < size group) →
          inputs.addGroups f size groups = inputs.dense f) ∧
    (∀ output m', inputs.forward g m f = (.ok output, m') → output = inputs.dense f) ∧
    ((∀ failure, ¬inputs.pass.Fails g (m.passGroups g inputs.pass).1 failure) →
      ∃ m', inputs.forward g m f = (.ok (inputs.dense f), m')) := by
  have s := (settled ha).reachable r
  have hlimit : 0 < m.groupLimit := by
    rw [Manager.groupLimit]
    split <;> decide
  have hdense : (m.forward g inputs.pass).1 = .ok () →
      inputs.addGroups f inputs.chunkSize (m.passGroups g inputs.pass).1 = inputs.dense f := by
    intro hok
    obtain ⟨groups, he, hg, hsize⟩ := s.addGroups hlimit hl hk hr f
    have hgroups : m.passGroups g inputs.pass = (groups, .ok ()) := he
    rw [hgroups]
    refine hsize _ fun group hm => chunkSize_pos hi (hg.nonempty group hm) ?_
    refine @evaluate_eq_ok V g m inputs.pass groups ?_ group hm
    rw [Manager.forward, hgroups] at hok
    split at hok
    case isTrue => cases hok
    case isFalse =>
      split at hok
      case h_1 => cases hok
      case h_2 =>
        generalize m.runGroups g inputs.pass groups = result at hok ⊢
        obtain ⟨failure | _, m'⟩ := result
        case error => cases hok
        case ok    => rfl
  have hfails := (@Settled.forward V g m inputs.pass s hl).2
  refine ⟨fun limit hlt => s.addGroups hlt hl hk hr f, fun output m' he => ?_, fun hno => ?_⟩
  case refine_1 =>
    rw [Inputs.forward] at he
    generalize m.forward g inputs.pass = result at he hdense
    obtain ⟨failure | _, next⟩ := result
    case error => cases he
    case ok =>
      obtain ⟨ho, -⟩ := Prod.mk.inj he
      exact (Except.ok.inj ho).symm.trans (hdense rfl)
  case refine_2 =>
    rw [Inputs.forward]
    generalize m.forward g inputs.pass = result at hdense hfails
    obtain ⟨failure | _, next⟩ := result
    case error => exact absurd (hfails failure rfl) (hno failure)
    case ok    => exact ⟨next, by rw [hdense rfl]⟩

end Claims

section Sample

-- Three rows with two routes each.
def sampleForward : Inputs Nat where
  layer          := 1
  routes         := [[1, 0], [0, 1], [1, 0]]
  topK           := 2
  rows           := 3
  width          := 4
  itemsize       := 4
  intermediate   := 8
  workspaceBytes := 4096
  prefetch _     := .ok ()
  loads _        := .ok 7
  times _        := 0
  evaluate _     := .ok ()

theorem sampleForward_succeeds {m : Manager Nat} (hs : Settled sampleGeometry m)
    (failure : Failure) :
    ¬sampleForward.pass.Fails sampleGeometry (m.passGroups sampleGeometry sampleForward.pass).1
      failure := by
  have hlimit : 0 < m.groupLimit ∧ m.groupLimit ≤ 8 := by
    rw [Manager.groupLimit]
    split <;> decide
  obtain ⟨-, -, hg⟩ := @Settled.grouped Nat _ _ hs sampleForward _ hlimit.1 (by decide) (by decide)
  intro h
  cases h
  case routing h   => exact absurd h (by decide)
  case workspace h => cases h
  case prefetch h  => cases h
  case load h      => cases h
  case evaluate group error hm h =>
    have hle : group.length ≤ m.groupLimit := hg.limit group hm
    have hrow : sampleForward.bytesPerRow group ≤ sampleForward.workspaceBytes / 4 := by
      change group.length * 8 * 4 * 4 ≤ 1024
      omega
    have hok : sampleForward.pass.evaluate group = .ok () := ensure_bind_eq_ok.mpr ⟨hrow, rfl⟩
    cases h.symm.trans hok

theorem streamed_forward_dense_sample :
    ∃ m', sampleForward.forward sampleGeometry shrunkManager (fun expert row => 10 * expert + row) =
      (.ok (sampleForward.dense fun expert row => 10 * expert + row), m') :=
  (streamed_forward_dense (by decide) shrunk_reachable (by decide) (by decide) (by decide)
    (by decide) _).2.2 (sampleForward_succeeds ((settled (by decide)).reachable shrunk_reachable))

end Sample

end ExpertManager
end Backend
