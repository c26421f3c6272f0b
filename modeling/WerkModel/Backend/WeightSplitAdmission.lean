import WerkModel.Backend.WeightSplit

-- The budgets of both caches stay below the memory that is left if it suffices for the weights in
-- use, one row of N-grams and one expert. Otherwise each cache keeps its minimum.
namespace Backend
namespace WeightSplit

open TextCheckpoint NgramCache ExpertManager SharedCache

variable {cp : Checkpoint} {layout : Layout cp} {V W : Type} {m m' : TextManager V W}
variable {available : Int}

namespace TextManager

variable (layout) (m)

def ngramBudget (cp : Checkpoint) : Nat :=
  (m.auxiliaryCacheUsage cp).2

-- A row of N-grams, the experts in use and one more expert, as far as they are streamed.
def workingSet : Int :=
  (if cp.ngramBudgetBytes = 0 then 0 else cp.inventory.largestNgramRowBytes) +
    m.expertMinimum layout

-- What the cache of experts keeps whatever the memory that is left.
def expertFloor : Nat :=
  if cp.expertsEnabled then layout.geometry.minimum m.experts.inUse else 0

end TextManager

structure Sound (layout : Layout cp) (m : TextManager V W) : Prop where
  counted   : Counted layout.geometry m.experts
  accounted : Accounted m.rows
  sizes     : ∀ item ∈ m.ngrams.cache.entries.items,
    (item.2.2 : Int) ≤ cp.inventory.largestNgramRowBytes
  disabled  : cp.expertsEnabled = false →
    m.experts.inUse = ∅ ∧ m.experts.effective = 0 ∧ m.experts.resident = 0

section Rows

variable {cache : SharedCache String (Nat × Nat) W} {opens : List (String × (Nat × Nat))}
variable {key : Nat × Nat} {size : Nat} {loaded : Except String W}

theorem accounted_acquireRow (h : Accounted ⟨cache, [], opens⟩)
    (hs : ∀ item ∈ cache.entries.items, (item.2.2 : Int) ≤ cp.inventory.largestNgramRowBytes)
    (hsize : (size : Int) ≤ cp.inventory.largestNgramRowBytes) :
    Accounted ⟨(acquireRow cache key size loaded).2, [],
        (acquireRow cache key size loaded).1.elim opens fun _ => ("ple", key) :: opens⟩ ∧
      ∀ item ∈ (acquireRow cache key size loaded).2.entries.items,
        (item.2.2 : Int) ≤ cp.inventory.largestNgramRowBytes := by
  have ha : ∀ next reply,
      (⟨cache, [], opens⟩ : World String (Nat × Nat) W).step (.acquire ("ple", key) size) =
        some (next, reply) → Accounted next := fun _ _ hst => (h.step hst).accounted
  have hi := fun item => @items_acquire _ _ _ _ _ cache ("ple", key) size item
  simp only [World.step] at ha
  rw [acquireRow]
  generalize cache.acquire ("ple", key) size = result at ha hi ⊢
  obtain ⟨_ | _ | value, cache'⟩ := result
  case error => exact ⟨ha _ _ rfl, fun item hm => hs item (hi item hm)⟩
  case ok.none =>
    have hl : Accounted ⟨cache', [(("ple", key), size)], opens⟩ := ha _ _ rfl
    cases loaded
    case error => exact ⟨(hl.raises rfl).accounted, fun item hm => hs item (hi item hm)⟩
    case ok value =>
      refine ⟨(@Accounted.returns _ _ _ _ _ _ _ _ hl value rfl).accounted, fun item hm => ?_⟩
      obtain rfl | ⟨hm, -⟩ := OrderedDict.mem_items_set.mp hm
      case inl => exact hsize
      case inr => exact hs item (hi item hm)
  case ok.some => exact ⟨ha _ _ rfl, fun item hm => hs item (hi item hm)⟩

-- The rows in use are not larger than a row, if there is one.
theorem Sound.leasedBytes_le (s : Sound layout m) (ho : m.opens.toFinset.card ≤ 1) :
    m.ngrams.cache.leasedBytes + m.ngrams.cache.pendingBytes ≤
      cp.inventory.largestNgramRowBytes.toNat := by
  have hp : m.ngrams.cache.pendingBytes = 0 := by
    have hl : m.ngrams.cache.pending.items = [] := s.accounted.loading
    rw [pendingBytes, OrderedDict.total, hl]
    rfl
  have hsub : m.ngrams.cache.leases.keySet ⊆ m.opens.toFinset := fun identity hm =>
    List.mem_toFinset.mpr (s.accounted.mem_opens (OrderedDict.mem_keySet.mp hm))
  have hsize : ∀ identity ∈ m.ngrams.cache.leases.keySet,
      m.ngrams.cache.size identity ≤ cp.inventory.largestNgramRowBytes.toNat := fun identity _ => by
    rw [SharedCache.size]
    cases hg : m.ngrams.cache.entries.get? identity
    case none => exact Nat.zero_le _
    case some entry =>
      have hle := s.sizes _ (OrderedDict.get?_eq_some.mp hg)
      rw [Option.elim_some]
      change (entry.2 : Int) ≤ _ at hle
      omega
  calc m.ngrams.cache.leasedBytes + m.ngrams.cache.pendingBytes
    _ = m.ngrams.cache.leasedBytes := by rw [hp, Nat.add_zero]
    _ ≤ m.ngrams.cache.leases.keySet.card * cp.inventory.largestNgramRowBytes.toNat :=
      Finset.sum_le_card_nsmul _ _ _ hsize
    _ ≤ 1 * cp.inventory.largestNgramRowBytes.toNat :=
      Nat.mul_le_mul_right _ ((Finset.card_le_card hsub).trans ho)
    _ = cp.inventory.largestNgramRowBytes.toNat := Nat.one_mul _

end Rows

section Steps

variable {event : Event V W} {expertEvent : ExpertEvent V}

theorem stepExperts_counted {g : Geometry} {experts experts' : Manager V} (h : Counted g experts)
    (hs : stepExperts g experts expertEvent = some experts') : Counted g experts' := by
  rw [stepExperts.eq_def] at hs
  split at hs
  case h_1 =>
    obtain rfl := Option.some.inj hs
    exact ⟨h.resident, h.retention⟩
  case h_2 =>
    obtain ⟨-, he⟩ := Option.ite_none_right_eq_some.mp hs
    obtain rfl := Option.some.inj he
    exact ⟨h.resident, h.retention⟩
  case h_3 =>
    obtain ⟨-, he⟩ := Option.ite_none_right_eq_some.mp hs
    obtain rfl := Option.some.inj he
    exact ⟨h.resident, h.retention⟩
  case h_4 =>
    obtain ⟨-, he⟩ := Option.ite_none_right_eq_some.mp hs
    obtain rfl := Option.some.inj he
    exact h.acquire.1.counted
  case h_5 =>
    obtain ⟨hm, he⟩ := Option.ite_none_right_eq_some.mp hs
    obtain rfl := Option.some.inj he
    exact h.pop hm.1

theorem Sound.expert (s : Sound layout m) (hs : step layout m (.expert expertEvent) = some m') :
    Sound layout m' := by
  obtain ⟨he, hm⟩ := Option.ite_none_right_eq_some.mp hs
  obtain ⟨experts, hx, rfl⟩ := Option.map_eq_some_iff.mp hm
  exact ⟨stepExperts_counted s.counted hx, s.accounted, s.sizes,
    fun hd => absurd he (Bool.eq_false_iff.mp hd)⟩

theorem Sound.acquireRow (s : Sound layout m) {key : Nat × Nat} {size : Nat}
    {loaded : Except String W} (hs : step layout m (.acquireRow key size loaded) = some m') :
    Sound layout m' := by
  obtain ⟨⟨-, hsize⟩, hs⟩ := Option.ite_none_right_eq_some.mp hs
  obtain ⟨ha, hi⟩ := @accounted_acquireRow cp W m.ngrams.cache m.opens key size loaded s.accounted
    s.sizes hsize
  generalize WeightSplit.acquireRow m.ngrams.cache key size loaded = result at ha hi hs
  obtain ⟨_ | _, cache⟩ := result
  case none =>
    obtain rfl := Option.some.inj hs
    exact ⟨s.counted, ha, hi, s.disabled⟩
  case some =>
    obtain rfl := Option.some.inj hs
    exact ⟨s.counted, ha, hi, s.disabled⟩

theorem Sound.releaseRow (s : Sound layout m) {key : Nat × Nat}
    (hs : step layout m (.releaseRow key) = some m') : Sound layout m' := by
  obtain ⟨⟨world, reply⟩, hr, rfl⟩ := Option.map_eq_some_iff.mp hs
  have ha := (s.accounted.release hr).accounted
  obtain ⟨-, he⟩ := Option.ite_none_right_eq_some.mp hr
  obtain ⟨rfl, -⟩ := Prod.mk.inj (Option.some.inj he)
  exact ⟨s.counted, ha, s.sizes, s.disabled⟩

theorem Sound.resizeCache (s : Sound layout m) (budget : Int) :
    ∃ experts, m.resizeCache layout budget = (.ok (), experts) ∧
      Counted layout.geometry experts ∧ experts.active = m.experts.active ∧
      experts.pinned = m.experts.pinned ∧ experts.leased = m.experts.leased ∧
      (∀ key ∈ m.experts.inUse, experts.cache.get? key = m.experts.cache.get? key) ∧
      experts.resident ≤ experts.effective ∧
      (cp.expertsEnabled = true →
        experts.effective = m.experts.effectiveFor layout.geometry budget) ∧
      (cp.expertsEnabled = false → experts = m.experts) := by
  rw [TextManager.resizeCache]
  cases he : cp.expertsEnabled
  case false =>
    obtain ⟨-, hf, hr⟩ := s.disabled he
    exact ⟨m.experts, rfl, s.counted, rfl, rfl, rfl, fun _ _ => rfl, by rw [hf, hr],
      fun h => (by cases h), fun _ => rfl⟩
  case true =>
    obtain ⟨experts, hr, hrec, hfits⟩ := s.counted.resizeCache budget
    exact ⟨experts, hr, hrec.counted, hrec.active, hrec.pinned, hrec.leased, hrec.kept, hfits,
      fun _ => hrec.effective, fun h => (by cases h)⟩

-- The cache of rows has a new budget, or it is as it was.
theorem Sound.resizeAuxiliaryCache (s : Sound layout m) (expertMinimum : Int) :
    Accounted ⟨(m.ngrams.resizeAuxiliaryCache cp expertMinimum available).2.cache, [], m.opens⟩ ∧
      Kept m.ngrams.cache (m.ngrams.resizeAuxiliaryCache cp expertMinimum available).2.cache ∧
      ∀ item ∈ (m.ngrams.resizeAuxiliaryCache cp expertMinimum available).2.cache.entries.items,
        item ∈ m.ngrams.cache.entries.items := by
  obtain ⟨-, he⟩ | ⟨-, limit, -, -, -, hc⟩ :=
    resizeAuxiliaryCache_cases cp m.ngrams expertMinimum available
  case inl =>
    rw [he]
    exact ⟨s.accounted, fun _ _ => rfl, fun _ hm => hm⟩
  case inr =>
    rw [hc]
    have ha : ∀ next reply, m.rows.step (.resize limit.toNat) = some (next, reply) →
      Steady m.rows next := fun _ _ hst => s.accounted.resize hst
    have hi := fun item => @items_resize _ _ _ _ _ m.ngrams.cache limit.toNat item
    simp only [World.step, TextManager.rows] at ha
    generalize m.ngrams.cache.resize limit.toNat = result at ha hi ⊢
    obtain ⟨_ | _, cache⟩ := result
    case error => exact ⟨(ha _ _ rfl).accounted, (ha _ _ rfl).kept, hi⟩
    case ok    => exact ⟨(ha _ _ rfl).accounted, (ha _ _ rfl).kept, hi⟩

theorem Sound.split (s : Sound layout m) (available : Int) :
    Sound layout (m.split layout available).2 := by
  obtain ⟨ha, -, hi⟩ := @Sound.resizeAuxiliaryCache _ _ _ _ _ available s (m.expertMinimum layout)
  rw [TextManager.split]
  generalize m.ngrams.resizeAuxiliaryCache cp (m.expertMinimum layout) available = result at ha hi
  obtain ⟨error | taken, ngrams⟩ := result
  case error => exact ⟨s.counted, ha, fun item hm => s.sizes item (hi item hm), s.disabled⟩
  case ok =>
    obtain ⟨experts, hr, hc, -, hp, hl, -, -, -, hd⟩ := s.resizeCache (available - taken)
    simp only [hr]
    exact ⟨hc, ha, fun item hm => s.sizes item (hi item hm), fun h => hd h ▸ s.disabled h⟩

theorem Sound.prepare (s : Sound layout m) (sample : Sample) :
    Sound layout (m.prepare layout sample).2 := by
  rw [TextManager.prepare]
  split
  case isTrue =>
    split
    case h_1               => exact s
    case h_2 available _   => exact s.split available
  case isFalse => exact s

theorem Sound.deactivate (s : Sound layout m) (ho : m.opens = []) : Sound layout m.deactivate where
  counted   := s.counted.deactivate
  accounted := by
    have hb := s.accounted.balanced
    have hn : ∀ identity, identity ∉ m.ngrams.cache.leases := fun identity hm => by
      have hm := s.accounted.mem_opens hm
      rw [TextManager.rows, ho] at hm
      cases hm
    have hl : m.ngrams.cache.pending.items = [] := s.accounted.loading
    have hp : ∀ p, m.ngrams.cache.reservedBytes p = 0 := fun p => by
      rw [reservedBytes, OrderedDict.total, hl]
      rfl
    exact {
      balanced := {
        used     := ((Nat.zero_add _).trans (hp fun _ => true)).symm
        bytes    := fun space => ((Nat.zero_add _).trans (hp (· = space))).symm
        leased   := fun identity hm => absurd hm (hn identity)
        positive := hb.positive
        fresh    := fun _ _ => List.not_mem_nil }
      bounded  := ⟨Nat.zero_le _, fun _ => Nat.zero_le _⟩
      counts   := s.accounted.counts
      loading  := s.accounted.loading }
  sizes     := fun _ hm => absurd hm List.not_mem_nil
  disabled  := fun hd => ⟨rfl, (s.disabled hd).2.1, rfl⟩

theorem new_sound (b : Built cp) {ngrams : Ngrams W} (hn : NgramCache.new cp = .ok ngrams)
    (grouped segmented : Bool) :
    Sound layout (⟨new layout.geometry grouped segmented, ngrams, []⟩ : TextManager V W) := by
  obtain ⟨cache, hc, hn⟩ := Checks.bind_eq_ok.mp hn
  obtain rfl := Except.ok.inj hn
  have hi : cache.entries.items = [] := by
    obtain ⟨-, he⟩ := Checks.seq_eq_ok.mp hc
    cases he
    rfl
  refine ⟨new_counted _ _ _, new_accounted hc, fun item hm => ?_, fun hd => ⟨rfl, ?_, rfl⟩⟩
  case refine_1 => exact absurd (hi ▸ hm) List.not_mem_nil
  case refine_2 =>
    change min (cp.cacheBytes.toNat) _ = 0
    rw [b.cacheBytes_eq_zero hd]
    exact Nat.zero_min _

theorem sound (b : Built cp) :
    (system layout : System (TextManager V W) (Event V W) Unit).Invariant (Sound layout) where
  init := by
    rintro _ ⟨grouped, segmented, ngrams, hn, rfl⟩
    exact new_sound b hn grouped segmented
  step := by
    intro m event _ m' s hs
    cases event
    case expert     => exact s.expert hs
    case acquireRow => exact s.acquireRow hs
    case releaseRow => exact s.releaseRow hs
    case prepare sample =>
      obtain rfl := Option.some.inj hs
      exact s.prepare sample
    case deactivate =>
      obtain ⟨ho, hs⟩ := Option.ite_none_right_eq_some.mp hs
      obtain rfl := Option.some.inj hs
      exact s.deactivate ho

end Steps

section Division

-- How the memory that is left has been divided.
structure Divided (layout : Layout cp) (available : Int) (m m' : TextManager V W) : Prop where
  within      : m.workingSet layout ≤ available →
    (m'.ngramBudget cp + m'.experts.effective : Int) ≤ available
  row         : available < m.workingSet layout → cp.ngramBudgetBytes ≠ 0 →
    (m'.ngramBudget cp : Int) = cp.inventory.largestNgramRowBytes
  remains     : (m'.experts.effective : Int) =
    max (m.expertFloor layout : Int) (min (layout.geometry.ceiling : Int)
      (available - m'.ngramBudget cp))
  expertsFit  : m'.experts.resident ≤ m'.experts.effective
  rowsFit     : m'.ngrams.cache.used ≤ m'.ngrams.cache.budget
  inUse       : m'.experts.inUse = m.experts.inUse ∧ m'.opens = m.opens
  expertsKept : ∀ key ∈ m.experts.inUse, m'.experts.cache.get? key = m.experts.cache.get? key
  rowsKept    : Kept m.ngrams.cache m'.ngrams.cache

theorem expertFloor_le : (m.expertFloor layout : Int) ≤ m.expertMinimum layout := by
  rw [TextManager.expertFloor, TextManager.expertMinimum]
  split
  case isTrue  => exact Int.ofNat_le.mpr Geometry.minimum_le
  case isFalse => exact le_refl _

variable {taken : Int} {ngrams : Ngrams W}

-- The rows take what the experts leave, and at least one row.
theorem Sound.resizeAuxiliaryCache_ok (s : Sound layout m)
    (h : m.ngrams.resizeAuxiliaryCache cp (m.expertMinimum layout) available =
      (.ok taken, ngrams)) :
    ((if cp.ngramBudgetBytes = 0 then 0 else ngrams.cache.budget : Nat) : Int) = taken ∧
      (m.workingSet layout ≤ available → taken ≤ available - m.expertMinimum layout) ∧
      (available < m.workingSet layout → cp.ngramBudgetBytes ≠ 0 →
        taken = cp.inventory.largestNgramRowBytes) := by
  have hw : m.workingSet layout =
      (if cp.ngramBudgetBytes = 0 then 0 else cp.inventory.largestNgramRowBytes) +
        m.expertMinimum layout := rfl
  obtain ⟨hz, he⟩ | ⟨hn, limit, hrow, hlimit, hok, hc⟩ :=
    resizeAuxiliaryCache_cases cp m.ngrams (m.expertMinimum layout) available
  case inl =>
    obtain ⟨ht, -⟩ := Prod.mk.inj (h.symm.trans he)
    obtain rfl := Except.ok.inj ht
    rw [if_pos hz] at hw ⊢
    exact ⟨rfl, fun hle => by omega, fun _ hn => absurd hz hn⟩
  case inr =>
    rw [h] at hok hc
    obtain ⟨hr, -, -, hs⟩ | ⟨-, error, -, hr⟩ := s.accounted.balanced.resize limit.toNat
    case inr =>
      change m.ngrams.cache.resize limit.toNat = _ at hr
      rw [hr] at hok
      cases hok
    case inl =>
      change (m.ngrams.cache.resize limit.toNat).1 = _ at hr
      rw [hr] at hok
      obtain rfl := Except.ok.inj hok
      have hb : ngrams.cache.budget = taken.toNat := hc ▸ hs.evicted.budget
      have hz : (0 : Int) ≤ cp.inventory.largestNgramRowBytes := Int.natCast_nonneg _
      rw [if_neg hn] at hw ⊢
      refine ⟨?_, fun hle => ?_, fun hlt _ => ?_⟩
      case refine_1 => rw [hb, Int.toNat_of_nonneg (hz.trans hrow)]
      case refine_2 => omega
      case refine_3 => omega

theorem ceiling_disabled (b : Built cp) (hd : cp.expertsEnabled = false) :
    layout.geometry.ceiling = 0 := by
  change min cp.cacheBytes.toNat _ = 0
  rw [b.cacheBytes_eq_zero hd]
  exact Nat.zero_min _

-- An experts' cache that is not used stays empty.
theorem Sound.effective (s : Sound layout m) (b : Built cp) {experts : Manager V} {budget : Int}
    (hon : cp.expertsEnabled = true →
      experts.effective = m.experts.effectiveFor layout.geometry budget)
    (hoff : cp.expertsEnabled = false → experts = m.experts) :
    (experts.effective : Int) =
      max (m.expertFloor layout : Int) (min (layout.geometry.ceiling : Int) budget) := by
  rw [TextManager.expertFloor]
  cases he : cp.expertsEnabled
  case true  => rw [hon he, effectiveFor_eq, if_pos rfl]
  case false =>
    rw [hoff he, (s.disabled he).2.1, ceiling_disabled b he, if_neg Bool.false_ne_true]
    omega

theorem Sound.divided (s : Sound layout m) (b : Built cp)
    (h : m.split layout available = (.ok (), m')) : Divided layout available m m' := by
  obtain ⟨ha, hkept, -⟩ :=
    @Sound.resizeAuxiliaryCache _ _ _ _ _ available s (m.expertMinimum layout)
  have ht := fun taken ngrams => @Sound.resizeAuxiliaryCache_ok _ _ _ _ _ available taken ngrams s
  rw [TextManager.split] at h
  generalize m.ngrams.resizeAuxiliaryCache cp (m.expertMinimum layout) available = result
    at h ha hkept ht
  obtain ⟨error | taken, ngrams⟩ := result
  case error => cases h
  case ok =>
    obtain ⟨experts, hr, -, -, hp, hl, hek, hfits, hon, hoff⟩ := s.resizeCache (available - taken)
    simp only [hr] at h
    obtain ⟨-, rfl⟩ := Prod.mk.inj h
    obtain ⟨hbudget, hle, hrow⟩ := ht taken ngrams rfl
    have hb : (({ m with experts, ngrams } : TextManager V W).ngramBudget cp : Int) = taken := by
      rw [←hbudget, TextManager.ngramBudget, TextManager.auxiliaryCacheUsage]
      split <;> rfl
    have heff := s.effective b hon hoff
    have hfloor := @expertFloor_le cp layout V W m
    exact {
      within      := fun hw => by
        have := hle hw
        rw [hb, heff]
        omega
      row         := fun hw hn => hb.trans (hrow hw hn)
      remains     := by
        rw [hb]
        exact heff
      expertsFit  := hfits
      rowsFit     := ha.bounded.used
      inUse       := ⟨by rw [Manager.inUse, hp, hl, Manager.inUse], rfl⟩
      expertsKept := hek
      rowsKept    := hkept }

-- No more than one row is in use, which fits into the smallest budget.
theorem Sound.succeeds (s : Sound layout m) (b : Built cp) (ho : m.opens.toFinset.card ≤ 1)
    (available : Int) : ∃ m', m.split layout available = (.ok (), m') := by
  suffices hr : ∃ taken ngrams, m.ngrams.resizeAuxiliaryCache cp (m.expertMinimum layout)
      available = (.ok taken, ngrams) by
    obtain ⟨taken, ngrams, hr⟩ := hr
    obtain ⟨experts, he, -⟩ := s.resizeCache (available - taken)
    exact ⟨{ m with experts, ngrams }, by simp only [TextManager.split, hr, he, Except.mapError]⟩
  obtain ⟨-, he⟩ | ⟨hn, limit, hrow, -, hok, -⟩ :=
    resizeAuxiliaryCache_cases cp m.ngrams (m.expertMinimum layout) available
  case inl => exact ⟨0, m.ngrams, he⟩
  case inr =>
    have hon : cp.ngramsEnabled = true := by
      by_contra hd
      exact hn (b.fitting.disabled (Bool.eq_false_iff.mpr hd))
    have hpos := (b.fitting.streams hon).row_pos
    have hle := s.leasedBytes_le ho
    obtain ⟨hr, -⟩ | ⟨hlt, -⟩ := s.accounted.balanced.resize limit.toNat
    case inl =>
      change (m.ngrams.cache.resize limit.toNat).1 = _ at hr
      rw [hr] at hok
      exact ⟨limit, _, Prod.ext hok rfl⟩
    case inr =>
      change limit.toNat < 1 ∨
        limit.toNat < m.ngrams.cache.leasedBytes + m.ngrams.cache.pendingBytes at hlt
      omega

-- The guard's usage with the rest of the budgets, the predicted peak and the headroom.
theorem Divided.admitted (d : Divided layout available m m') {sample : Sample} {cap : Int}
    (hc : sample.cap = some cap) (ha : sample.available (m.cacheTotals cp).1 = some available)
    (hw : m.workingSet layout ≤ available) :
    m'.current cp (nonExpert sample.current (m.cacheTotals cp).1 + (m'.cacheTotals cp).1) +
      sample.peak + admissionHeadroomBytes ≤ cap := by
  rw [Sample.available, hc] at ha
  have ha : cap - nonExpert sample.current (m.cacheTotals cp).1 - sample.peak - workspaceBytes -
    admissionHeadroomBytes = available := Option.some.inj ha
  have hle := d.within hw
  have he := d.expertsFit
  have hr := d.rowsFit
  have hfit : (m'.cacheTotals cp).1 ≤ (m'.cacheTotals cp).2 := by
    rw [TextManager.cacheTotals, TextManager.auxiliaryCacheUsage]
    dsimp only
    split <;> omega
  have hcap : (m'.cacheTotals cp).2 = m'.ngramBudget cp + m'.experts.effective :=
    Nat.add_comm ..
  have hwork : (0 : Int) ≤ workspaceBytes := by decide
  rw [TextManager.current]
  split <;> omega

theorem weight_split (b : Built cp)
    (r : (system layout : System (TextManager V W) (Event V W) Unit).Reachable m)
    (available : Int) :
    (m.opens.toFinset.card ≤ 1 → ∃ m', m.split layout available = (.ok (), m')) ∧
    ∀ m', m.split layout available = (.ok (), m') →
      Divided layout available m m' ∧
      ∀ (sample : Sample) cap, sample.cap = some cap →
        sample.available (m.cacheTotals cp).1 = some available →
        m.workingSet layout ≤ available →
        m'.current cp (nonExpert sample.current (m.cacheTotals cp).1 + (m'.cacheTotals cp).1) +
          sample.peak + admissionHeadroomBytes ≤ cap := by
  have s := (sound b).reachable r
  refine ⟨fun ho => s.succeeds b ho available, fun m' h => ?_⟩
  have d := s.divided b h
  exact ⟨d, fun sample cap hc ha hw => d.admitted hc ha hw⟩

end Division

section Sample

def samplePart : Part where
  rows     := 2
  weight   := 32
  scales   := 4
  biases   := 4
  rows_pos := Nat.two_pos

theorem samplePart_ne_nil : [samplePart] ≠ [] :=
  List.cons_ne_nil _ _

theorem sampleDim_pos : 0 < 32 :=
  Nat.succ_pos 31

theorem sampleLayers_ne_nil : [100] ≠ [] :=
  List.cons_ne_nil _ _

def sampleInventory : Inventory where
  layerBytes  := [100]
  experts     := 1
  base        := []
  ple         := [80]
  pleTables   := [⟨32, [samplePart], sampleDim_pos, samplePart_ne_nil⟩]
  nonempty    := sampleLayers_ne_nil
  experts_pos := Nat.one_pos

-- Two rows of 168 bytes each, and one expert, which is loaded with the base weights.
def residentExperts : Checkpoint where
  inventory              := sampleInventory
  expertsEnabled         := false
  cacheBudgetMode        := .disabled
  cacheBytes             := 0
  ngramsEnabled          := true
  ngramBudgetMode        := .explicit
  ngramBudgetBytes       := 300
  ngramInitialCacheBytes := 300
  baseBytes              := 400
  residentEstimateBytes  := 400 + workspaceBytes

def streamedExperts : Checkpoint :=
  { residentExperts with
    expertsEnabled        := true
    cacheBudgetMode       := .explicit
    cacheBytes            := 100
    baseBytes             := 300
    residentEstimateBytes := 400 + workspaceBytes }

theorem streamedExperts_built : Built streamedExperts :=
  @Built.init sampleInventory (some 100) (some 300) streamedExperts rfl

def residentLayout : Layout residentExperts where
  layers    := [0]
  nodup     := List.nodup_singleton 0
  length_eq := rfl

def streamedLayout : Layout streamedExperts where
  layers    := [0]
  nodup     := List.nodup_singleton 0
  length_eq := rfl

def sampleCache : SharedCache String (Nat × Nat) Nat where
  budget  := 300
  limits  := .empty
  entries := .empty
  leases  := .empty
  pending := .empty
  used    := 0
  stats   := .empty

def sampleManager {cp : Checkpoint} (layout : Layout cp) : TextManager Nat Nat where
  experts := new layout.geometry true true
  ngrams  := ⟨sampleCache, 300, 0⟩
  opens   := []

theorem resident_reachable : (system residentLayout).Reachable (sampleManager residentLayout) :=
  .init ⟨true, true, _, rfl, rfl⟩

theorem streamed_reachable : (system streamedLayout).Reachable (sampleManager streamedLayout) :=
  .init ⟨true, true, _, rfl, rfl⟩

theorem sampleCache_resize :
    sampleCache.resize 190 = (.ok (), { sampleCache with budget := 190 }) := by
  have hs : ({ sampleCache with budget := 190 } : SharedCache String (Nat × Nat) Nat).shrink =
      (.ok (), { sampleCache with budget := 190 }) := by
    rw [shrink]
    exact if_neg (by decide)
  have hi : integer 190 "cache budget" 1 = .ok () := rfl
  rw [SharedCache.resize, hi, ←hs]
  exact if_neg (by decide)

theorem weight_split_streamed :
    ∃ m', (sampleManager streamedLayout).split streamedLayout 500 = (.ok (), m') ∧
      Divided streamedLayout 500 (sampleManager streamedLayout) m' := by
  obtain ⟨hs, hd⟩ := weight_split streamedExperts_built streamed_reachable 500
  obtain ⟨m', hm⟩ := hs (by decide)
  exact ⟨m', hm, (hd m' hm).1⟩

-- The rows take more than one row of what is left while it does not suffice for an expert, which
-- needs no cache.
theorem split_of_resident_experts :
    ∃ m', (system residentLayout).Reachable (sampleManager residentLayout) ∧
      (sampleManager residentLayout).split residentLayout 190 = (.ok (), m') ∧
      (190 : Int) < residentExperts.inventory.largestNgramRowBytes +
        (residentLayout.geometry.bytes (sampleManager residentLayout).experts.inUse +
          residentLayout.geometry.largest : Nat) ∧
      (m'.ngramBudget residentExperts : Int) ≠ residentExperts.inventory.largestNgramRowBytes ∧
      (m'.experts.effective : Int) ≠
        max (residentLayout.geometry.minimum (sampleManager residentLayout).experts.inUse : Int)
          (min residentLayout.geometry.ceiling (190 - m'.ngramBudget residentExperts)) := by
  refine ⟨{ sampleManager residentLayout with
    ngrams := ⟨{ sampleCache with budget := 190 }, 300, 0⟩ }, resident_reachable, ?_, ?_, ?_, ?_⟩
  case refine_1 =>
    have hl : Ngrams.limit (sampleManager residentLayout).ngrams residentExperts 0 190 = 190 := by
      decide
    have hg : (sampleManager residentLayout).ngrams.grow residentExperts =
      (sampleManager residentLayout).ngrams := rfl
    have hm : (sampleManager residentLayout).expertMinimum residentLayout = 0 := rfl
    rw [TextManager.split, hm, Ngrams.resizeAuxiliaryCache, if_neg (by decide), hg]
    simp only [hl]
    simp only [sampleManager, show (190 : Int).toNat = 190 from rfl, sampleCache_resize]
    rfl
  case refine_2 => decide
  case refine_3 => decide
  case refine_4 => decide

end Sample
end WeightSplit
end Backend
