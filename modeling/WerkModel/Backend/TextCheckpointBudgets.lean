import WerkModel.Backend.TextCheckpoint

-- The chosen budgets fit into the memory, and are refused only if nothing fits.
open Checks

namespace Backend.TextCheckpoint

variable {inv : Inventory} {expertBytes ngramBytes : Option Int} {c c' : Checkpoint}
variable {metalLimit availableMemory baseBytes expertMinimum minimumRowBytes : Int}
variable {maximumRowCacheBytes budget : Int}

namespace Inventory

theorem rows_pos {row : Nat × Nat} (h : row ∈ inv.rows) : 0 < row.1 ∧ 0 < row.2 := by
  have ⟨table, _, h⟩ := List.mem_flatMap.mp h
  obtain ⟨part, _, rfl⟩ := List.mem_map.mp h
  have := table.dims_pos
  refine ⟨part.rows_pos, ?_⟩
  simp only [Part.rowBytes]
  omega

theorem rows_ne_nil (h : inv.pleTables.isEmpty = false) : inv.rows ≠ [] := by
  have ⟨table, tables, ht⟩ := List.exists_cons_of_ne_nil (List.isEmpty_eq_false_iff.mp h)
  have ⟨part, parts, hp⟩ := List.exists_cons_of_ne_nil table.nonempty
  simp [rows, ht, hp]

-- The table with the largest rows has at least one of them.
theorem largestNgramRowBytes_le (h : inv.pleTables.isEmpty = false) :
    0 < inv.largestNgramRowBytes ∧ inv.largestNgramRowBytes ≤ inv.maximumNgramCacheBytes := by
  rw [largestNgramRowBytes, maximumNgramCacheBytes]
  cases hm : (inv.rows.map Prod.snd).max?
  case none =>
    have := List.map_eq_nil_iff.mp (List.max?_eq_none_iff.mp hm)
    exact absurd this (rows_ne_nil h)
  case some size =>
    obtain ⟨row, hr, rfl⟩ := List.mem_map.mp (List.max?_mem hm)
    have ⟨hc, hs⟩ := rows_pos hr
    have hle : row.1 * row.2 ≤ (inv.rows.map fun row => row.1 * row.2).sum :=
      List.single_le_sum (by simp) _ (List.mem_map_of_mem hr)
    have := Nat.le_mul_of_pos_left row.2 hc
    simp only [Option.getD_some]
    omega

theorem largestExpertBytes_le :
    0 ≤ inv.largestExpertBytes ∧ inv.largestExpertBytes ≤ inv.totalExpertBytes := by
  rw [largestExpertBytes, totalExpertBytes]
  cases hm : inv.layerBytes.max?
  case none => exact absurd (List.max?_eq_none_iff.mp hm) inv.nonempty
  case some size =>
    have hle : size ≤ inv.layerBytes.sum :=
      List.single_le_sum (by simp) _ (List.max?_mem hm)
    have := Nat.le_mul_of_pos_right inv.layerBytes.sum inv.experts_pos
    simp only [Option.getD_some]
    omega

end Inventory

-- The base bytes are those of everything that is loaded before the caches fill.
def Accounted (c : Checkpoint) : Prop :=
  c.baseBytes = c.inventory.denseBytes +
    (if c.ngramsEnabled then c.ngramInitialCacheBytes else c.inventory.ngramStorageBytes) +
    (if c.expertsEnabled then 0 else c.inventory.totalExpertBytes)

-- What the constructor accepts.
structure Accepted (inv : Inventory) (c : Checkpoint) : Prop where
  inventory : c.inventory = inv
  accounted : Accounted c
  experts   : c.cacheBudgetMode = .auto → c.expertsEnabled = true
  ngrams    : c.ngramBudgetMode = .auto → c.ngramsEnabled = true ∧
    0 < inv.largestNgramRowBytes ∧ inv.largestNgramRowBytes ≤ inv.maximumNgramCacheBytes ∧
    inv.largestNgramRowBytes ≤ c.ngramInitialCacheBytes

theorem init_accepted (h : init inv expertBytes ngramBytes = .ok c) : Accepted inv c := by
  rw [init, ensure_bind_eq_ok] at h
  have ⟨_, h⟩ := h
  have ⟨_, h⟩ := ensure_bind_eq_ok.mp h
  have ⟨_, h⟩ := ensure_bind_eq_ok.mp h
  have ⟨_, h⟩ := ensure_bind_eq_ok.mp h
  have ⟨_, h⟩ := ensure_bind_eq_ok.mp h
  obtain rfl := Except.ok.inj h
  refine ⟨rfl, ?_, fun ha => ?_, fun ha => ?_⟩
  · simp only [Accounted]
    generalize (!inv.pleTables.isEmpty && decide (ngramBytes ≠ some 0)) = enabled
    cases enabled
    case false => simp
    case true  => simp
  · cases expertBytes
    case none   => simp at ha
    case some _ => rfl
  · cases he : inv.pleTables.isEmpty
    case true => simp [he] at ha
    case false =>
      simp only [he, Bool.not_false, Bool.true_and] at ha ⊢
      cases ngramBytes
      case some bytes => split at ha <;> simp at ha
      case none =>
        have ⟨hp, hl⟩ := Inventory.largestNgramRowBytes_le he
        refine ⟨rfl, hp, hl, ?_⟩
        simp only [ne_eq, reduceCtorEq, not_false_eq_true, decide_true, not_true_eq_false,
          if_false, if_true, Option.getD_none, orElse]
        omega

theorem automaticNgramBudget_eq_ok :
    automaticNgramBudget metalLimit availableMemory baseBytes expertMinimum minimumRowBytes
        maximumRowCacheBytes = .ok budget ↔
      (0 ≤ metalLimit ∧ 0 ≤ availableMemory ∧ 0 ≤ baseBytes ∧ 0 ≤ expertMinimum ∧
        0 ≤ minimumRowBytes ∧ 0 ≤ maximumRowCacheBytes) ∧
      (metalLimit ≠ 0 ∧ availableMemory ≠ 0 ∧ minimumRowBytes ≠ 0 ∧
        minimumRowBytes ≤ maximumRowCacheBytes) ∧
      expertMinimum + minimumRowBytes ≤ usable metalLimit availableMemory -
        (baseBytes + workspaceBytes + allocatorCacheBytes) ∧
      budget = min (min maximumRowCacheBytes (usable metalLimit availableMemory -
        (baseBytes + workspaceBytes + allocatorCacheBytes) - expertMinimum))
        (if expertMinimum ≠ 0 then
          max minimumRowBytes ((usable metalLimit availableMemory -
            (baseBytes + workspaceBytes + allocatorCacheBytes)) / 8)
        else
          usable metalLimit availableMemory -
            (baseBytes + workspaceBytes + allocatorCacheBytes)) := by
  simp only [automaticNgramBudget, integer, ensure_bind_eq_ok, pure, Except.pure, Except.ok.injEq,
    and_assoc, @eq_comm _ _ budget]

theorem Checkpoint.automaticCacheBudget_eq_ok :
    c.automaticCacheBudget metalLimit availableMemory = .ok budget ↔
      0 < metalLimit ∧ 0 < availableMemory ∧ c.inventory.largestExpertBytes ≤ budget ∧
      budget = min c.inventory.totalExpertBytes (usable metalLimit availableMemory -
        c.baseBytes - (workspaceBytes + allocatorCacheBytes)) := by
  simp only [automaticCacheBudget, positiveInt, ensure_bind_eq_ok, pure, Except.pure,
    Except.ok.injEq]
  constructor
  case mp =>
    rintro ⟨hm, ha, hl, rfl⟩
    exact ⟨hm, ha, hl, rfl⟩
  case mpr =>
    rintro ⟨hm, ha, hl, rfl⟩
    exact ⟨hm, ha, hl, rfl⟩

namespace Checkpoint

-- What is not streamed fits, if the budget for experts is chosen.
structure Selected (inv : Inventory) (c₀ c : Checkpoint) (room : Int) : Prop where
  inventory : c.inventory = inv
  accounted : Accounted c
  mode      : c.cacheBudgetMode = c₀.cacheBudgetMode
  ngrams    : c.ngramBudgetMode = .auto → c₀.ngramBudgetMode = .auto ∧ c.ngramsEnabled = true ∧
    c.ngramInitialCacheBytes = c₀.ngramInitialCacheBytes
  resident  : c₀.cacheBudgetMode = .auto → c.expertsEnabled = false →
    c.cacheBytes = 0 ∧ c.baseBytes + workspaceBytes + allocatorCacheBytes ≤ room ∧
    c₀.baseBytes + inv.totalExpertBytes + workspaceBytes + allocatorCacheBytes ≤ room
  streamed  : c.expertsEnabled = true → c = c₀

theorem selected (h : Accepted inv c) :
    Selected inv c (c.selectResidentExperts metalLimit availableMemory)
      (usable metalLimit availableMemory) := by
  have hacc := h.accounted
  rw [Accounted] at hacc
  rw [selectResidentExperts]
  split
  case isTrue hc =>
    refine ⟨h.inventory, h.accounted, rfl, fun hn => ⟨hn, (h.ngrams hn).1, rfl⟩,
      fun ha he => ?_, fun _ => rfl⟩
    rw [h.experts ha] at he
    cases he
  case isFalse hc =>
    simp only [not_or, not_not, not_lt] at hc
    obtain ⟨hmode, henabled, hroom⟩ := hc
    rw [if_pos henabled] at hacc
    have hfits : c.baseBytes + inv.totalExpertBytes + workspaceBytes + allocatorCacheBytes ≤
        usable metalLimit availableMemory := by
      rw [←h.inventory]
      omega
    split
    case isTrue hn =>
      rw [if_pos (h.ngrams hn.1).1] at hacc
      refine ⟨h.inventory, ?_, rfl, nofun, fun _ _ => ⟨rfl, ?_, hfits⟩, nofun⟩
      · simp only [Accounted, Bool.false_eq_true, if_false]
        omega
      · simp only
        omega
    case isFalse hn =>
      refine ⟨h.inventory, ?_, rfl, fun hn => ⟨hn, (h.ngrams hn).1, rfl⟩,
        fun _ _ => ⟨rfl, ?_, hfits⟩, nofun⟩
      · simp only [Accounted, Bool.false_eq_true, if_false]
        omega
      · simp only
        omega

-- Without a budget that is chosen, nothing is selected.
theorem configureAuto_eq : c.configureAuto metalLimit availableMemory = (do
    let c ← (c.selectResidentExperts metalLimit availableMemory).configureNgrams metalLimit
      availableMemory
    let c ← c.configureExperts metalLimit availableMemory
    return { c with
      residentEstimateBytes := residentEstimate c.inventory c.baseBytes c.cacheBytes }) := by
  rw [configureAuto]
  by_cases h : c.cacheBudgetMode = .auto ∨ c.ngramBudgetMode = .auto
  case pos => rw [if_pos h]
  case neg =>
    rw [not_or] at h
    rw [if_neg (not_or.mpr h), selectResidentExperts, if_pos (.inl h.1), configureNgrams,
      if_neg h.2]

theorem configureNgrams_cases (h : c.configureNgrams metalLimit availableMemory = .ok c') :
    (c.ngramBudgetMode ≠ .auto ∧ c' = c) ∨ c.ngramBudgetMode = .auto ∧ ∃ budget,
      automaticNgramBudget metalLimit availableMemory (c.baseBytes - c.ngramInitialCacheBytes)
        (if c.expertsEnabled then c.inventory.largestExpertBytes else 0)
        c.inventory.largestNgramRowBytes c.inventory.maximumNgramCacheBytes = .ok budget ∧
      c' = { c with
        ngramBudgetBytes       := budget
        baseBytes              :=
          c.baseBytes + (min c.ngramInitialCacheBytes budget - c.ngramInitialCacheBytes)
        ngramInitialCacheBytes := min c.ngramInitialCacheBytes budget } := by
  rw [configureNgrams] at h
  split at h
  case isTrue ha =>
    have ⟨budget, hb, hc⟩ := bind_eq_ok.mp h
    exact .inr ⟨ha, budget, hb, (Except.ok.inj hc).symm⟩
  case isFalse ha => exact .inl ⟨ha, (Except.ok.inj h).symm⟩

theorem configureExperts_cases (h : c.configureExperts metalLimit availableMemory = .ok c') :
    (¬(c.cacheBudgetMode = .auto ∧ c.expertsEnabled = true) ∧ c' = c) ∨
      (c.cacheBudgetMode = .auto ∧ c.expertsEnabled = true) ∧ ∃ budget,
        c.automaticCacheBudget metalLimit availableMemory = .ok budget ∧
        c' = { c with cacheBytes := budget } := by
  rw [configureExperts] at h
  split at h
  case isTrue ha =>
    have ⟨budget, hb, hc⟩ := bind_eq_ok.mp h
    exact .inr ⟨ha, budget, hb, (Except.ok.inj hc).symm⟩
  case isFalse ha => exact .inl ⟨ha, (Except.ok.inj h).symm⟩

-- The chosen budget for rows is left by what is loaded.
structure Rows (c : Checkpoint) (room : Int) : Prop where
  least  : c.inventory.largestNgramRowBytes ≤ c.ngramBudgetBytes
  most   : c.ngramBudgetBytes ≤ c.inventory.maximumNgramCacheBytes
  loaded : c.baseBytes ≤ c.inventory.denseBytes + c.ngramBudgetBytes +
    (if c.expertsEnabled then 0 else c.inventory.totalExpertBytes)
  room   : c.inventory.denseBytes + c.ngramBudgetBytes +
    (if c.expertsEnabled then c.inventory.largestExpertBytes else c.inventory.totalExpertBytes) +
    workspaceBytes + allocatorCacheBytes ≤ room

-- Choosing it never adds to the base bytes.
theorem configureNgrams_selected {c₀ : Checkpoint}
    (hs : Selected inv c₀ c (usable metalLimit availableMemory))
    (h : c.configureNgrams metalLimit availableMemory = .ok c') :
    Accounted c' ∧ c'.inventory = inv ∧ c'.expertsEnabled = c.expertsEnabled ∧
      c'.cacheBudgetMode = c₀.cacheBudgetMode ∧ c'.cacheBytes = c.cacheBytes ∧
      c'.baseBytes ≤ c.baseBytes ∧
      (c'.ngramBudgetMode = .auto → Rows c' (usable metalLimit availableMemory)) := by
  rcases configureNgrams_cases h with ⟨hn, rfl⟩ | ⟨hn, budget, hb, rfl⟩
  case inl =>
    exact ⟨hs.accounted, hs.inventory, rfl, hs.mode, rfl, le_rfl, fun ha => absurd ha hn⟩
  case inr =>
    have ⟨_, ⟨_, _, _, hm⟩, hroom, hb⟩ := automaticNgramBudget_eq_ok.mp hb
    have hacc := hs.accounted
    rw [Accounted, if_pos (hs.ngrams hn).2.1] at hacc
    refine ⟨?_, hs.inventory, rfl, hs.mode, rfl, by simp only; omega, fun _ => ⟨?_, ?_, ?_, ?_⟩⟩
    · simp only [Accounted, if_pos (hs.ngrams hn).2.1]
      omega
    all_goals
      simp only
      cases he : c.expertsEnabled
    all_goals
      simp only [he, Bool.false_eq_true, if_false, if_true] at hb hroom hacc ⊢
      split at hb <;> omega

-- The budgets that were chosen fit into the memory, and one expert into its cache.
structure Sound (c : Checkpoint) (room : Int) : Prop where
  accounted : Accounted c
  experts   : c.cacheBudgetMode = .auto →
    c.baseBytes + c.cacheBytes + workspaceBytes + allocatorCacheBytes ≤ room ∧
    (c.expertsEnabled = true → c.inventory.largestExpertBytes ≤ c.cacheBytes)
  ngrams    : c.ngramBudgetMode = .auto → Rows c room

theorem configureAuto_sound (ha : Accepted inv c)
    (h : c.configureAuto metalLimit availableMemory = .ok c') :
    Sound c' (usable metalLimit availableMemory) := by
  rw [configureAuto_eq] at h
  have ⟨c₁, h₁, h⟩ := bind_eq_ok.mp h
  have ⟨c₂, h₂, h⟩ := bind_eq_ok.mp h
  obtain rfl := Except.ok.inj h
  have hs := @selected _ _ metalLimit availableMemory ha
  have ⟨hacc, hinv, henabled, hmode, hcache, hbase, hrows⟩ := configureNgrams_selected hs h₁
  rcases configureExperts_cases h₂ with ⟨hn, rfl⟩ | ⟨⟨hauto, hexperts⟩, budget, hb, rfl⟩
  case inl =>
    refine ⟨hacc, fun hauto => ?_, fun hn => ⟨(hrows hn).1, (hrows hn).2, (hrows hn).3,
      (hrows hn).4⟩⟩
    have hoff : c₂.expertsEnabled = false := by
      simpa using fun he => hn ⟨hauto, he⟩
    have ⟨hzero, hroom, _⟩ := hs.resident (hmode.symm.trans hauto) (henabled.symm.trans hoff)
    refine ⟨?_, fun he => absurd he (by simp [hoff])⟩
    simp only [hcache, hzero]
    omega
  case inr =>
    have ⟨_, _, hl, hb⟩ := automaticCacheBudget_eq_ok.mp hb
    refine ⟨hacc, fun _ => ⟨?_, fun _ => hl⟩, fun hn => ⟨(hrows hn).1, (hrows hn).2,
      (hrows hn).3, (hrows hn).4⟩⟩
    simp only
    omega

-- A budget for rows is found whenever a row and an expert fit.
theorem configureNgrams_ok (hm : 0 < metalLimit) (hmem : 0 < availableMemory)
    (hacc : Accounted c) (hon : c.ngramsEnabled = true)
    (hrow : 0 < c.inventory.largestNgramRowBytes)
    (hmax : c.inventory.largestNgramRowBytes ≤ c.inventory.maximumNgramCacheBytes)
    (hroom : c.inventory.denseBytes + c.inventory.largestNgramRowBytes +
      (if c.expertsEnabled then c.inventory.largestExpertBytes else c.inventory.totalExpertBytes) +
      workspaceBytes + allocatorCacheBytes ≤ usable metalLimit availableMemory) :
    ∃ c', c.configureNgrams metalLimit availableMemory = .ok c' := by
  rw [configureNgrams]
  split
  case isFalse => exact ⟨c, rfl⟩
  case isTrue =>
    have hdense : 0 ≤ c.inventory.denseBytes := Int.natCast_nonneg _
    have hexpert := @Inventory.largestExpertBytes_le c.inventory
    rw [Accounted, if_pos hon] at hacc
    -- Without the first rows, the base is what is loaded besides the experts that are streamed.
    have hbase : 0 ≤ c.baseBytes - c.ngramInitialCacheBytes ∧
        0 ≤ (if c.expertsEnabled then c.inventory.largestExpertBytes else 0) ∧
          (if c.expertsEnabled then c.inventory.largestExpertBytes else 0) +
              (c.baseBytes - c.ngramInitialCacheBytes) =
            c.inventory.denseBytes +
              (if c.expertsEnabled then c.inventory.largestExpertBytes
                else c.inventory.totalExpertBytes) := by
      cases he : c.expertsEnabled
      case false =>
        simp only [he, Bool.false_eq_true, if_false] at hacc ⊢
        omega
      case true =>
        simp only [he, if_true] at hacc ⊢
        omega
    obtain ⟨hnonneg, hminimum, hsum⟩ := hbase
    have hb := (@automaticNgramBudget_eq_ok metalLimit availableMemory
      (c.baseBytes - c.ngramInitialCacheBytes)
      (if c.expertsEnabled then c.inventory.largestExpertBytes else 0)
      c.inventory.largestNgramRowBytes c.inventory.maximumNgramCacheBytes _).mpr
      ⟨⟨hm.le, hmem.le, hnonneg, hminimum, hrow.le, by omega⟩,
        ⟨hm.ne', hmem.ne', hrow.ne', hmax⟩, by omega, rfl⟩
    rw [hb]
    exact ⟨_, rfl⟩

theorem configureAuto_ok_iff (ha : Accepted inv c) (hm : 0 < metalLimit)
    (hmem : 0 < availableMemory) (hc : c.cacheBudgetMode = .auto) (hn : c.ngramBudgetMode = .auto) :
    (∃ c', c.configureAuto metalLimit availableMemory = .ok c') ↔
      inv.denseBytes + inv.largestNgramRowBytes + inv.largestExpertBytes + workspaceBytes +
        allocatorCacheBytes ≤ usable metalLimit availableMemory := by
  have hs := @selected _ _ metalLimit availableMemory ha
  have ⟨hon, hpos, hmax, hinitial⟩ := ha.ngrams hn
  have hexpert := @Inventory.largestExpertBytes_le inv
  have hacc := ha.accounted
  have hinv := ha.inventory
  rw [Accounted, if_pos hon, if_pos (ha.experts hc), hinv] at hacc
  rw [configureAuto_eq]
  simp only [bind_eq_ok]
  cases he : (c.selectResidentExperts metalLimit availableMemory).expertsEnabled
  case false =>
    -- Everything but the rows is loaded, with more of them than one.
    have ⟨_, _, hfits⟩ := hs.resident hc he
    refine iff_of_true ?_ (by omega)
    have ⟨c₁, h₁⟩ : ∃ c₁, (c.selectResidentExperts metalLimit availableMemory).configureNgrams
        metalLimit availableMemory = .ok c₁ := by
      by_cases hauto : (c.selectResidentExperts metalLimit availableMemory).ngramBudgetMode = .auto
      case neg => exact ⟨_, if_neg hauto⟩
      case pos =>
        refine configureNgrams_ok hm hmem hs.accounted (hs.ngrams hauto).2.1 ?_ ?_ ?_
        all_goals rw [hs.inventory]
        · exact hpos
        · exact hmax
        · rw [he, if_neg Bool.false_ne_true]
          omega
    have ⟨_, _, henabled, _⟩ := configureNgrams_selected hs h₁
    rw [he] at henabled
    exact ⟨_, c₁, h₁, c₁, if_neg fun h => by simp [henabled] at h, rfl⟩
  case true =>
    have hsame := hs.streamed he
    rw [hsame] at hs ⊢
    constructor
    case mp =>
      rintro ⟨_, c₁, h₁, _⟩
      rcases configureNgrams_cases h₁ with ⟨hne, _⟩ | ⟨_, budget, hb, _⟩
      case inl => exact absurd hn hne
      case inr =>
        have ⟨_, _, hroom, _⟩ := automaticNgramBudget_eq_ok.mp hb
        rw [if_pos (ha.experts hc), hinv] at hroom
        omega
    case mpr =>
      intro hroom
      have ⟨c₁, h₁⟩ := configureNgrams_ok hm hmem ha.accounted hon (hinv ▸ hpos) (hinv ▸ hmax) (by
        rw [if_pos (ha.experts hc), hinv]
        exact hroom)
      have ⟨_, hinv₁, henabled, hmode, _, _, hrows⟩ := configureNgrams_selected hs h₁
      have hn₁ : c₁.ngramBudgetMode = .auto := by
        rcases configureNgrams_cases h₁ with ⟨hne, _⟩ | ⟨_, _, _, rfl⟩
        case inl => exact absurd hn hne
        case inr => exact hn
      have hr := hrows hn₁
      have hloaded := hr.loaded
      have hleft := hr.room
      have hon₁ := henabled.trans (ha.experts hc)
      rw [hon₁, hinv₁] at hloaded hleft
      have hb := (@automaticCacheBudget_eq_ok c₁ metalLimit availableMemory _).mpr
        ⟨hm, hmem, ?_, rfl⟩
      · exact ⟨_, c₁, h₁, _, by rw [configureExperts, if_pos ⟨hmode.trans hc, hon₁⟩, hb]; rfl, rfl⟩
      · rw [hinv₁]
        simp only [if_true] at hloaded hleft
        omega

end Checkpoint

-- The memory is accounted for, what is chosen fits, and the choice is refused only if a row and an
-- expert do not fit besides the dense weights.
theorem configureAuto_exact (inv : Inventory) (expertBytes ngramBytes : Option Int)
    (metalLimit availableMemory : Int) (c : Checkpoint)
    (hi : init inv expertBytes ngramBytes = .ok c) (hm : 0 < metalLimit)
    (ha : 0 < availableMemory) :
    Accounted c ∧
    (∀ c', c.configureAuto metalLimit availableMemory = .ok c' →
      c'.Sound (usable metalLimit availableMemory)) ∧
    (c.cacheBudgetMode = .auto → c.ngramBudgetMode = .auto →
      ((∃ error, c.configureAuto metalLimit availableMemory = .error error) ↔
        usable metalLimit availableMemory < inv.denseBytes + inv.largestNgramRowBytes +
          inv.largestExpertBytes + workspaceBytes + allocatorCacheBytes)) := by
  have h := init_accepted hi
  refine ⟨h.accounted, fun c' hc => Checkpoint.configureAuto_sound h hc, fun hc hn => ?_⟩
  rw [←not_le, ←Checkpoint.configureAuto_ok_iff h hm ha hc hn]
  cases c.configureAuto metalLimit availableMemory
  case error => simp
  case ok    => simp

def Inventory.small : Inventory where
  layerBytes  := [16, 24]
  experts     := 4
  base        := [100, 28]
  ple         := [640]
  pleTables   := [⟨4, [⟨8, 64, 16, 16, Nat.succ_pos 7⟩], Nat.succ_pos 3, List.cons_ne_nil _ _⟩]
  nonempty    := List.cons_ne_nil _ _
  experts_pos := Nat.succ_pos 3

theorem configureAuto_exact_small :
    ∃ c, init .small (some 0) none = .ok c ∧ Accounted c ∧
      (∀ c', c.configureAuto 9 9 = .ok c' → c'.Sound (usable 9 9)) ∧
      (c.cacheBudgetMode = .auto → c.ngramBudgetMode = .auto →
        ((∃ error, c.configureAuto 9 9 = .error error) ↔
          usable 9 9 < Inventory.small.denseBytes + Inventory.small.largestNgramRowBytes +
            Inventory.small.largestExpertBytes + workspaceBytes + allocatorCacheBytes)) := by
  have hok : (init .small (some 0) none).toBool = true := by decide +kernel
  cases hc : init .small (some 0) none
  case error => simp [hc, Except.toBool] at hok
  case ok c =>
    exact ⟨c, rfl, configureAuto_exact .small (some 0) none 9 9 c hc (by decide) (by decide)⟩

end Backend.TextCheckpoint
