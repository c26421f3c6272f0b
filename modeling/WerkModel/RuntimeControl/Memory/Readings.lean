import WerkModel.RuntimeControl.Memory.Headroom

-- Telemetry that shows some relief.
open Std ExtTreeMap Saturating

namespace RuntimeControl.Memory

open World ManagerState

-- The accounts of `s'` show `relief` bytes less in use than those of `s`: on the tier, or in the
-- pool that all tiers share.
def Relieved (config : MemoryManagerConfig) (s s' : ManagerState) (tier : MemoryTier)
    (relief : Nat) : Prop :=
  match config.topology with
  | .discrete => ∀ account account', s.tiers[tier]? = some account →
      s'.tiers[tier]? = some account' → account'.totalBytes = account.totalBytes ∧
        account'.observedUsedBytes = account.observedUsedBytes - relief
  | .unified =>
    (∀ (tier' : MemoryTier) account account', s.tiers[tier']? = some account →
      s'.tiers[tier']? = some account' → account'.totalBytes = account.totalBytes) ∧
    s'.observedPeak = s.observedPeak - relief

section Readings

variable {config : MemoryManagerConfig} {s s' : ManagerState} {tier : MemoryTier} {relief : Nat}
variable {samples : List MemoryObservation} {observations : Observations}

theorem collectSamples_ok (hv : ∀ sample ∈ samples, sample.Valid)
    (hd : (samples.map (·.tier)).Nodup) (hn : ∀ sample ∈ samples, sample.tier ∉ observations) :
    ∃ observations', collectSamples samples observations = .ok observations' ∧
      (∀ sample ∈ samples, observations'[sample.tier]? = some sample) ∧
      ∀ (tier : MemoryTier) sample, observations[tier]? = some sample →
        observations'[tier]? = some sample := by
  induction samples generalizing observations
  case nil => exact ⟨observations, rfl, nofun, fun _ _ => id⟩
  case cons sample samples hi =>
    have ⟨hv₁, hv₂⟩ := List.forall_mem_cons.mp hv
    have ⟨hn₁, hn₂⟩ := List.forall_mem_cons.mp hn
    have ⟨hd₁, hd₂⟩ := List.nodup_cons.mp hd
    have hne {sample'} (hm : sample' ∈ samples) : sample'.tier ≠ sample.tier :=
      fun he => hd₁ (List.mem_map.mpr ⟨sample', hm, he⟩)
    have hn' (sample') (hm : sample' ∈ samples) :
        sample'.tier ∉ observations.insert sample.tier sample := by
      intro hin
      cases mem_insert.mp hin
      case inl he  => exact hne hm (LawfulEqCmp.eq_of_compare he).symm
      case inr hin => exact hn₂ _ hm hin
    have ⟨observations', ho, hs, hk⟩ := hi hv₂ hd₂ hn'
    rw [collectSamples, if_neg (Nat.pos_iff_ne_zero.mp hv₁.1), if_neg (Nat.not_lt.mpr hv₁.2),
      if_neg hn₁]
    refine ⟨observations', ho, List.forall_mem_cons.mpr ⟨?_, hs⟩, fun tier sample' hl => ?_⟩
    · exact hk _ _ getElem?_insert_self
    · refine hk _ _ ?_
      rw [getElem?_insert, if_neg, hl]
      intro he
      exact hn₁ (LawfulEqCmp.eq_of_compare he ▸ mem_of_lookup hl)

-- The reading of a tier after relief.
def MemoryObservation.after (tier : MemoryTier) (relief : Nat) (account : TierAccount) :
    MemoryObservation where
  tier           := tier
  totalBytes     := account.totalBytes
  availableBytes := account.totalBytes - (account.observedUsedBytes - relief)

theorem max?_sub (l : List Nat) (relief : Nat) :
    (l.map (· - relief)).max?.getD 0 = l.max?.getD 0 - relief := by
  cases hl : l.max?
  case none =>
    rw [List.max?_eq_none_iff.mp hl]
    exact (Nat.zero_sub _).symm
  case some top =>
    have ⟨hm, hle⟩ := List.max?_eq_some_iff.mp hl
    have hs : (l.map (· - relief)).max? = some (top - relief) := by
      refine List.max?_eq_some_iff.mpr ⟨List.mem_map_of_mem hm, fun x hx => ?_⟩
      have ⟨a, ha, he⟩ := List.mem_map.mp hx
      have := hle a ha
      omega
    rw [hs]
    rfl

theorem after_valid {account : TierAccount} (h : account.Refreshed) :
    (MemoryObservation.after tier relief account).Valid :=
  ⟨h.total_pos, Nat.sub_le ..⟩

def reading (s : ManagerState) (relief : Nat) : List MemoryObservation :=
  s.tiers.toList.map fun entry => .after entry.1 relief entry.2

theorem sampleTelemetry_reading (hs : s.Refreshed)
    (hb : s.budgets = (ManagerState.new config).budgets)
    (hb' : s'.budgets = (ManagerState.new config).budgets) :
    ∃ observations, sampleTelemetry s' (.ok (reading s relief)) = .ok observations ∧
      ∀ (tier : MemoryTier) account, s.tiers[tier]? = some account →
        observations[tier]? = some (.after tier relief account) := by
  have ht : (reading s relief).map (·.tier) = s.tiers.keys := by
    rw [reading, List.map_map, ←map_fst_toList_eq_keys]
    rfl
  have hm {tier : MemoryTier} {account} (ha : s.tiers[tier]? = some account) :
      MemoryObservation.after tier relief account ∈ reading s relief :=
    List.mem_map.mpr ⟨(tier, account), mem_toList_iff_getElem?_eq_some.mpr ha, rfl⟩
  have hv : ∀ sample ∈ reading s relief, sample.Valid := by
    intro sample hm
    obtain ⟨entry, he, hv⟩ := List.mem_map.mp hm
    exact hv ▸ after_valid (hs entry.1 entry.2 (mem_toList_iff_getElem?_eq_some.mp he))
  have hc : ∃ observations, collectSamples (reading s relief) ∅ = .ok observations ∧ _ ∧ _ :=
    collectSamples_ok hv (ht ▸ nodup_keys) fun _ _ => not_mem_empty
  obtain ⟨observations, ho, hl, _⟩ := hc
  have hne : reading s relief ≠ [] := by
    obtain ⟨budget, hm', _⟩ := List.mem_map.mp config.host_mem
    obtain ⟨account, ha, _⟩ := account_of_budget hb hm'
    exact List.ne_nil_of_mem (hm ha)
  have hlen : (reading s relief).length ≤ MAX_MEMORY_TIERS :=
    calc
      (reading s relief).length = s.tiers.keySet.card := by
        rw [←List.length_map (·.tier), ht, keySet, List.toFinset_card_of_nodup nodup_keys]
      _ ≤ (config.budgets.map TierBudget.tier).length := by
        rw [keySet_tiers hb]
        exact List.toFinset_card_le _
      _ ≤ MAX_MEMORY_TIERS := by
        rw [List.length_map]
        exact config.budgets_length
  refine ⟨observations, ?_, fun tier account ha => hl _ (hm ha)⟩
  rw [sampleTelemetry, if_neg (not_or.mpr ⟨hne, Nat.not_lt.mpr hlen⟩), ho]
  simp only
  split
  case h_2 => rfl
  case h_1 tier hf =>
    have hk := mem_keySet_iff.mpr (mem_keys.mp (List.mem_of_find?_eq_some hf))
    rw [keySet_tiers hb', ←keySet_tiers hb, mem_keySet_iff] at hk
    obtain ⟨account, ha⟩ := exists_lookup hk
    have hn := List.find?_some hf
    simp only [decide_eq_true_eq] at hn
    exact absurd (mem_of_lookup (hl _ (hm ha))) hn

theorem relieved_reading (hs : s.Refreshed) (hb : s.budgets = (ManagerState.new config).budgets)
    (hb' : s'.budgets = (ManagerState.new config).budgets) :
    (sampleTelemetry s' (.ok (reading s relief))).isOk ∧
    Relieved config s (s'.refreshed config (.ok (reading s relief))) tier relief := by
  have hr : ∃ observations, sampleTelemetry s' (.ok (reading s relief)) = .ok observations ∧ _ :=
    sampleTelemetry_reading hs hb hb'
  obtain ⟨observations, ho, hl⟩ := hr
  have hseen {tier' : MemoryTier} {before after} (hb : s.tiers[tier']? = some before)
      (ha : (s'.refreshed config (.ok (reading s relief))).tiers[tier']? = some after) :
      after.totalBytes = before.totalBytes ∧
        after.observedUsedBytes = before.observedUsedBytes - relief := by
    rw [ManagerState.refreshed, ho] at ha
    obtain ⟨_, _, _, _, he⟩ := lookup_refreshAccounts (mem_of_lookup (hl _ _ hb)) ha
    rw [hl _ _ hb] at he
    have hu := (hs _ _ hb).observedUsed_add
    rw [TierAccount.totalBytes, TierAccount.observedUsedBytes, he]
    refine ⟨rfl, ?_⟩
    change before.totalBytes - (before.totalBytes - (before.observedUsedBytes - relief)) = _
    omega
  refine ⟨by rw [ho]; rfl, ?_⟩
  rw [Relieved]
  split
  case h_1 => exact fun _ _ => hseen
  case h_2 =>
    refine ⟨fun _ _ _ hb ha => (hseen hb ha).1, ?_⟩
    have hsame : SameBooks s' (s'.refreshed config (.ok (reading s relief))) := by
      rw [ManagerState.refreshed, ho]
      exact sameBooks_refreshAccounts ..
    have hk : (s'.refreshed config (.ok (reading s relief))).tiers.keySet = s.tiers.keySet :=
      (keySet_tiers ((budgets_of_balances hsame.balances).trans hb')).trans (keySet_tiers hb).symm
    have hmap : (s'.refreshed config (.ok (reading s relief))).tiers.valueList.map
          TierAccount.observedUsedBytes =
        s.tiers.valueList.map ((· - relief) ∘ TierAccount.observedUsedBytes) := by
      refine valueList_map_congr fun tier' => ?_
      by_cases hm : tier' ∈ s.tiers
      case pos =>
        obtain ⟨before, hb⟩ := exists_lookup hm
        rw [←mem_keySet_iff, ←hk, mem_keySet_iff] at hm
        obtain ⟨after, ha⟩ := exists_lookup hm
        rw [hb, ha, Option.map_some, Option.map_some, (hseen hb ha).2]
        rfl
      case neg =>
        have hn := hm
        rw [←mem_keySet_iff, ←hk, mem_keySet_iff] at hn
        rw [getElem?_eq_none hm, getElem?_eq_none hn]
        rfl
    rw [observedPeak, observedPeak, ←max?_sub, List.map_map, hmap]

end Readings
end RuntimeControl.Memory
