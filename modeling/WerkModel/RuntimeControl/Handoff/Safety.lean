import WerkModel.RuntimeControl.Handoff.Books

-- A handoff is consumed at most once, by its principal and before it expires, and a reservation can
-- always be issued.
open Std ExtTreeMap Tokens

namespace RuntimeControl.Handoff

open HandoffEntries World

variable {σ : Type*} {tokenDigest : String → String} {world world' : World σ}
variable {operation : Operation σ} {result : Result σ} {history : History σ}

-- What an operation does to a world whose books are consistent.
inductive Effect (tokenDigest : String → String) (world : World σ) :
    Operation σ → Result σ → World σ → Prop
  | refused {operation error} :
    Effect tokenDigest world operation (.error error) world
  | purged {operation error now} :
    operation.clock = some now →
    Effect tokenDigest world operation (.error error) (world.takeExpired now)
  | reserved {principalId bytes now reservation} :
    reservation = .generate tokenDigest principalId bytes →
    (world.registry.takeExpired now).Space principalId →
    (world.registry.takeExpired now).Fresh reservation.digest →
    Effect tokenDigest world (.reserve principalId (some bytes) now) (.ok <| .reservation reservation)
      ((world.takeExpired now).hold reservation)
  | issued {reservation record now} :
    reservation ∈ world.reservations →
    record.principalId = reservation.principalId →
    Effect tokenDigest world (.issue reservation record now) (.ok <| .token reservation.token)
      ((world.dropReservation reservation).insert reservation.digest (record.withExpiry now))
  | mismatched {reservation record now} :
    reservation ∈ world.reservations →
    record.principalId ≠ reservation.principalId →
    Effect tokenDigest world (.issue reservation record now) (.error principalMismatch)
      (world.dropReservation reservation)
  | inspected {principalId token now record} :
    world.registry.Found principalId (tokenDigest token) now record →
    Effect tokenDigest world (.inspect principalId token now) (.ok <| .inspected record)
      (world.takeExpired now)
  | taken {principalId token now record} :
    world.registry.Found principalId (tokenDigest token) now record →
    Effect tokenDigest world (.take principalId token now) (.ok <| .taken record)
      ((world.takeExpired now).remove (tokenDigest token))
  | replaced {principalId token bytes now record reservation} :
    world.registry.Found principalId (tokenDigest token) now record →
    reservation = .generate tokenDigest principalId bytes →
    (world.registry.takeExpired now).Fresh reservation.digest →
    Effect tokenDigest world (.takeWithReplacement principalId token (some bytes) now)
      (.ok <| .replaced record reservation)
      (((world.takeExpired now).remove (tokenDigest token)).hold reservation)
  | dropped {reservation} :
    reservation ∈ world.reservations →
    Effect tokenDigest world (.dropReservation reservation) (.ok .done)
      (world.dropReservation reservation)

-- The failure of an operation that leaves the reservations alone.
theorem Effect.of_refused {α now} {r : Except ProtocolError α × HandoffEntries σ}
    {accept : α → World σ → Output σ × World σ} (h : world.registry.Refused now r)
    (hc : operation.clock = some now) :
    Effect tokenDigest world operation (world.settle r accept).1 (world.settle r accept).2 := by
  have ⟨_, h⟩ := h
  cases h
  case inl h => exact h ▸ .refused
  case inr h => exact h ▸ .purged hc

theorem issue_ok {reservation record now} (h : world.Consistent)
    (hm : reservation ∈ world.reservations)
    (hp : record.principalId = reservation.principalId) :
    world.apply tokenDigest (.issue reservation record now) = (.ok <| .token reservation.token,
      (world.dropReservation reservation).insert reservation.digest (record.withExpiry now)) := by
  have ⟨registry, hd, he, _, _, _⟩ := h.release hm
  have hi : reservation.digest ∈ world.registry.reservedTokens :=
    h.held.subset hm <| Finset.mem_singleton_self _
  have hr : reservation.drop world.registry = registry := congrArg Prod.snd hd
  rw [apply_issue <| HandoffReservation.issue_of_counted hp hi hd (he ▸ h.disjoint _ hi), ←hr]
  rfl

theorem issue_mismatch {reservation record now}
    (hp : record.principalId ≠ reservation.principalId) :
    world.apply tokenDigest (.issue reservation record now) =
      (.error principalMismatch, world.dropReservation reservation) :=
  apply_issue_error <| HandoffReservation.issue_of_mismatch hp

theorem apply_effect (h : world.Consistent) (hl : world.Holds operation) :
    Effect tokenDigest world operation (world.apply tokenDigest operation).1
      (world.apply tokenDigest operation).2 := by
  cases operation
  case reserve principalId random now =>
    cases reserve_cases
    case inl hr => exact .of_refused hr rfl
    case inr hr =>
      have ⟨_, _, hb, hs, hg, hf, he⟩ := hr
      rw [apply_reserve he, hb]
      exact hg ▸ .reserved rfl hs (hg ▸ hf)
  case issue reservation record now =>
    by_cases hp : record.principalId = reservation.principalId
    case pos => rw [issue_ok h hl hp]; exact .issued hl hp
    case neg => rw [issue_mismatch hp]; exact .mismatched hl hp
  case inspect principalId token now =>
    cases inspect_cases
    case inl hr => exact .of_refused hr rfl
    case inr hr =>
      have ⟨_, hf, he⟩ := hr
      rw [apply_inspect he]
      exact .inspected hf
  case take principalId token now =>
    cases take_cases
    case inl hr => exact .of_refused hr rfl
    case inr hr =>
      have ⟨_, hf, he⟩ := hr
      rw [apply_take he]
      exact .taken hf
  case takeWithReplacement principalId token random now =>
    cases takeWithReplacement_cases
    case inl hr => exact .of_refused hr rfl
    case inr hr =>
      have ⟨_, _, _, hb, hf, hg, hn, he⟩ := hr
      rw [apply_takeWithReplacement he, hb]
      exact hg ▸ .replaced hf rfl (hg ▸ hn)
  case dropReservation reservation => exact .dropped hl

theorem step_effect (h : world.Consistent)
    (hs : (system σ tokenDigest).Step world operation result world') :
    Effect tokenDigest world operation result world' := by
  have he : Effect tokenDigest world operation _ _ := apply_effect h hs.1
  rwa [hs.2] at he

theorem Consistent.of_dropReservation {reservation} (h : world.Consistent)
    (hm : reservation ∈ world.reservations) :
    (world.dropReservation reservation).Consistent ∧
    (world.dropReservation reservation).registry.Space reservation.principalId ∧
    (world.dropReservation reservation).registry.entries = world.registry.entries ∧
    (world.dropReservation reservation).registry.reservedTokens =
      world.registry.reservedTokens.erase reservation.digest := by
  have ⟨registry, hd, he, hr, hs, hc⟩ := h.release hm
  have hw : reservation.drop world.registry = registry := congrArg Prod.snd hd
  rw [World.dropReservation, hw]
  exact ⟨hc, hs, he, hr⟩

theorem Found.lookup_takeExpired {principalId digest now record}
    (h : world.registry.Found principalId digest now record) :
    (world.takeExpired now).registry.entries[digest]? = some record :=
  HandoffEntries.lookup_takeExpired.mpr ⟨h.lookup, h.live⟩

theorem Effect.consistent (he : Effect tokenDigest world operation result world')
    (h : world.Consistent) : world'.Consistent := by
  cases he
  case refused          => exact h
  case purged now _     => exact h.takeExpired now
  case inspected now _ _ => exact h.takeExpired now
  case reserved principalId bytes now reservation hg hs hf =>
    exact (h.takeExpired now).hold (hg ▸ hs) hf.entries hf.reserved
  case issued reservation record now hm hp =>
    have ⟨hc, hs, he, hr⟩ := Consistent.of_dropReservation h hm
    have hd := h.disjoint _ <| h.held.subset hm <| Finset.mem_singleton_self _
    refine hc.insert ?_ (he ▸ hd) (hr ▸ Finset.notMem_erase _ _)
    rwa [HandoffRecord.principalId_withExpiry, hp]
  case mismatched hm _ => exact (Consistent.of_dropReservation h hm).1
  case dropped hm      => exact (Consistent.of_dropReservation h hm).1
  case taken now record hf => exact (h.takeExpired now).remove <| Found.lookup_takeExpired hf
  case replaced principalId token bytes now record reservation hf hg hn =>
    have hl := Found.lookup_takeExpired hf
    have hs := (h.takeExpired now).space_remove hl
    refine ((h.takeExpired now).remove hl).hold ?_ ?_ hn.reserved
    · rw [hg]
      exact hf.principal ▸ hs
    · exact fun he => hn.entries (mem_erase.mp he).2

theorem consistent (σ : Type*) (tokenDigest : String → String) :
    (system σ tokenDigest).Invariant World.Consistent where
  init _ h           := h ▸ .new
  step _ _ _ _ h hst := (step_effect h hst).consistent h

-- What the history of a run says about its world.
structure World.Traced (tokenDigest : String → String) (history : History σ) (world : World σ) :
    Prop where
  generated : ∀ r ∈ world.reservations,
    r.digest = tokenDigest r.token ∧ r.token ∈ history.generatedTokens
  issued    : ∀ digest record, world.registry.entries[digest]? = some record →
    ∃ token ∈ history.generatedTokens, digest = tokenDigest token ∧ history.Issued token record
  consumed  : ∀ c ∈ history.consumptions, c.token ∈ history.generatedTokens ∧
    tokenDigest c.token ∉ world.registry.entries ∧
    tokenDigest c.token ∉ world.registry.reservedTokens
  once      : (history.consumptions.map (·.token)).Nodup
  valid     : ∀ c ∈ history.consumptions, c.now < c.record.expiresUnixMs ∧
    c.record.principalId = c.principalId ∧ history.Issued c.token c.record

namespace History

variable {step : Operation σ × Result σ} {token : String} {record : HandoffRecord σ}

theorem mem_generatedTokens_cons (h : token ∈ history.generatedTokens) :
    token ∈ generatedTokens (step :: history) := by
  simp only [generatedTokens, List.mem_filterMap] at h ⊢
  have ⟨s, hs, ht⟩ := h
  exact ⟨s, List.mem_cons_of_mem _ hs, ht⟩

theorem consumptions_of_none (h : Operation.consumption step = none) :
    consumptions (step :: history) = history.consumptions :=
  List.filterMap_cons_none h

theorem consumptions_of_some {c} (h : Operation.consumption step = some c) :
    consumptions (step :: history) = c :: history.consumptions :=
  List.filterMap_cons_some h

theorem Issued.cons (h : history.Issued token record) : Issued (step :: history) token record :=
  have ⟨reservation, record', now, hm, hr⟩ := h
  ⟨reservation, record', now, List.mem_cons_of_mem _ hm, hr⟩

end History

namespace World.Traced

open History

variable {step : Operation σ × Result σ} {token digest : String} {record : HandoffRecord σ}
variable {reservation : HandoffReservation}

theorem new : (World.new : World σ).Traced tokenDigest [] where
  generated _ h := absurd h (Multiset.notMem_zero _)
  issued _ _ h  := by simp [World.new, HandoffEntries.new] at h
  consumed      := nofun
  once          := .nil
  valid         := nofun

-- A step that consumes nothing and at most removes entries and reservations.
theorem shrink (h : world.Traced tokenDigest history)
    (hc : Operation.consumption step = none)
    (hm : ∀ r ∈ world'.reservations, r ∈ world.reservations)
    (he : ∀ (digest : String) record, world'.registry.entries[digest]? = some record →
      world.registry.entries[digest]? = some record)
    (hr : world'.registry.reservedTokens ⊆ world.registry.reservedTokens) :
    world'.Traced tokenDigest (step :: history) where
  generated r hw      := (h.generated r <| hm r hw).imp_right mem_generatedTokens_cons
  issued d record hw  := by
    have ⟨token, ht, hd, hi⟩ := h.issued d record <| he d record hw
    exact ⟨token, mem_generatedTokens_cons ht, hd, hi.cons⟩
  consumed c hw       := by
    have ⟨hg, hn, hs⟩ := h.consumed c <| consumptions_of_none hc ▸ hw
    refine ⟨mem_generatedTokens_cons hg, fun hk => ?_, fun hk => hs <| hr hk⟩
    have ⟨_, hk⟩ := exists_lookup hk
    exact hn <| mem_of_lookup <| he _ _ hk
  once                := by
    rw [consumptions_of_none hc]
    exact h.once
  valid c hw          :=
    have ⟨hl, hp, hi⟩ := h.valid c <| consumptions_of_none hc ▸ hw
    ⟨hl, hp, hi.cons⟩

-- The consumption of an entry, where digests are injective.
theorem consume {c : Consumption σ} (h : world.Traced tokenDigest history)
    (hd : tokenDigest.Injective) (hc : Operation.consumption step = some c)
    (hf : world.registry.Found c.principalId (tokenDigest c.token) c.now c.record)
    (hr : tokenDigest c.token ∉ world.registry.reservedTokens) :
    ((world.takeExpired c.now).remove (tokenDigest c.token)).Traced tokenDigest (step :: history)
      where
  generated r hw      := (h.generated r hw).imp_right mem_generatedTokens_cons
  issued d record hw  := by
    rw [lookup_remove] at hw
    split at hw
    case isTrue  => cases hw
    case isFalse =>
      have ⟨token, ht, hd, hi⟩ := h.issued d record (HandoffEntries.lookup_takeExpired.mp hw).1
      exact ⟨token, mem_generatedTokens_cons ht, hd, hi.cons⟩
  consumed c' hw      := by
    rw [consumptions_of_some hc] at hw
    cases List.mem_cons.mp hw
    case inl hw =>
      have ⟨token, hg, ht, _⟩ := h.issued _ _ hf.lookup
      rw [hw, hd ht]
      exact ⟨mem_generatedTokens_cons hg, fun hk => (mem_erase.mp hk).1 (by simp), hd ht ▸ hr⟩
    case inr hw =>
      have ⟨hg, hn, hs⟩ := h.consumed c' hw
      exact ⟨mem_generatedTokens_cons hg, fun hk => hn <| mem_takeExpired (mem_erase.mp hk).2, hs⟩
  once                := by
    rw [consumptions_of_some hc]
    refine List.nodup_cons.mpr ⟨fun hm => ?_, h.once⟩
    have ⟨c', hm, ht⟩ := List.mem_map.mp hm
    exact (h.consumed c' hm).2.1 <| ht ▸ mem_of_lookup hf.lookup
  valid c' hw         := by
    rw [consumptions_of_some hc] at hw
    cases List.mem_cons.mp hw
    case inl hw =>
      have ⟨token, _, ht, hi⟩ := h.issued _ _ hf.lookup
      exact hw ▸ ⟨hf.live, hf.principal, (hd ht ▸ hi).cons⟩
    case inr hw =>
      have ⟨hl, hp, hi⟩ := h.valid c' hw
      exact ⟨hl, hp, hi.cons⟩

theorem hold (h : world.Traced tokenDigest history)
    (hd : tokenDigest.Injective) (hr : reservation.digest = tokenDigest reservation.token)
    (hg : reservation.token ∈ history.generatedTokens)
    (hc : ∀ c ∈ history.consumptions, c.token ≠ reservation.token) :
    (world.hold reservation).Traced tokenDigest history where
  generated r hw     := by
    cases Multiset.mem_cons.mp hw
    case inl hw => exact hw ▸ ⟨hr, hg⟩
    case inr hw => exact h.generated r hw
  issued             := h.issued
  consumed c hw      := by
    have ⟨hg, hn, hs⟩ := h.consumed c hw
    refine ⟨hg, hn, fun hk => ?_⟩
    cases Finset.mem_insert.mp hk
    case inl hk => exact hc c hw <| hd (hk.trans hr)
    case inr hk => exact hs hk
  once               := h.once
  valid              := h.valid

theorem insert (h : world.Traced tokenDigest history)
    (hi : history.Issued token record)
    (hg : token ∈ history.generatedTokens)
    (hc : ∀ c ∈ history.consumptions, tokenDigest c.token ≠ tokenDigest token) :
    (world.insert (tokenDigest token) record).Traced tokenDigest history where
  generated          := h.generated
  issued d record hw := by
    rw [lookup_insert] at hw
    split at hw
    case isTrue hd =>
      cases hw
      exact ⟨token, hg, hd.symm, hi⟩
    case isFalse   => exact h.issued d record hw
  consumed c hw      := by
    have ⟨hg, hn, hs⟩ := h.consumed c hw
    refine ⟨hg, fun hk => ?_, hs⟩
    cases mem_insert.mp hk
    case inl hk => exact hc c hw (LawfulEqCmp.compare_eq_iff_eq.mp hk).symm
    case inr hk => exact hn hk
  once               := h.once
  valid              := h.valid

end World.Traced

-- The tokens of a run are fresh if all of them are distinct.
def History.Fresh (history : History σ) : Prop :=
  history.generatedTokens.Nodup

theorem History.Fresh.tail {step} (h : History.Fresh (step :: history)) : history.Fresh := by
  rw [Fresh, generatedTokens, List.filterMap_cons] at h
  split at h
  case h_1 => exact h
  case h_2 => exact (List.nodup_cons.mp h).2

theorem History.generatedTokens_cons {token} (h : operation.generated = some token) :
    generatedTokens ((operation, result) :: history) = token :: history.generatedTokens :=
  List.filterMap_cons_some h

theorem History.Fresh.head {token} (h : History.Fresh ((operation, result) :: history))
    (hg : operation.generated = some token) : token ∉ history.generatedTokens := by
  rw [Fresh, generatedTokens_cons hg] at h
  exact (List.nodup_cons.mp h).1

theorem Operation.consumption_error {error} :
    Operation.consumption (operation, (.error error : Result σ)) = none := by
  cases operation <;> rfl

theorem Effect.traced (he : Effect tokenDigest world operation result world')
    (hc : world.Consistent) (h : world.Traced tokenDigest history) (hd : tokenDigest.Injective)
    (hf : History.Fresh ((operation, result) :: history)) :
    world'.Traced tokenDigest ((operation, result) :: history) := by
  have hp {now : Nat} {step : Operation σ × Result σ} (hn : Operation.consumption step = none) :
      (world.takeExpired now).Traced tokenDigest (step :: history) :=
    h.shrink hn (fun _ hm => hm) (fun _ _ hl => (lookup_takeExpired.mp hl).1) fun _ hm => hm
  have hdrop {reservation} {step : Operation σ × Result σ} (hm : reservation ∈ world.reservations)
      (hn : Operation.consumption step = none) :
      (world.dropReservation reservation).Traced tokenDigest (step :: history) := by
    have ⟨_, _, he, hr⟩ := Consistent.of_dropReservation hc hm
    refine h.shrink hn (fun _ hm => Multiset.mem_of_mem_erase hm) (fun _ _ hl => he ▸ hl) ?_
    exact hr ▸ Finset.erase_subset _ _
  have hentry {digest record} (hl : world.registry.entries[digest]? = some record) :
      digest ∉ world.registry.reservedTokens :=
    fun hr => hc.disjoint _ hr <| mem_of_lookup hl
  cases he
  case refused         => exact h.shrink Operation.consumption_error (by simp) (by simp) (by simp)
  case purged          => exact hp Operation.consumption_error
  case inspected       => exact hp rfl
  case reserved principalId bytes now reservation hg hs hn =>
    have ht : (Operation.reserve principalId (some bytes) now : Operation σ).generated =
        some reservation.token := hg ▸ rfl
    refine (hp rfl).hold hd (hg ▸ rfl) ?_ fun c hm hk => hf.head ht <| hk ▸ (h.consumed c hm).1
    rw [History.generatedTokens_cons ht]
    exact List.mem_cons_self
  case issued reservation record now hm hi =>
    have ⟨hr, hg⟩ := h.generated reservation hm
    rw [hr]
    refine (hdrop hm rfl).insert ⟨reservation, record, now, List.mem_cons_self, rfl⟩ hg fun c hc' hk => ?_
    exact (h.consumed c hc').2.2 <| hk ▸ hr ▸ hc.held.subset hm (Finset.mem_singleton_self _)
  case mismatched reservation record now hm hi => exact hdrop hm rfl
  case dropped reservation hm                  => exact hdrop hm rfl
  case taken principalId token now record hl =>
    exact h.consume (c := ⟨principalId, token, now, record⟩) hd rfl hl <| hentry hl.lookup
  case replaced principalId token bytes now record reservation hl hg hn =>
    have ht : (Operation.takeWithReplacement principalId token (some bytes) now :
        Operation σ).generated = some reservation.token := hg ▸ rfl
    have hw := hl.lookup
    refine (h.consume (c := ⟨principalId, token, now, record⟩) hd rfl hl <| hentry hw).hold hd
      (hg ▸ rfl) ?_ fun c hm hk => hf.head ht ?_
    · rw [History.generatedTokens_cons ht]
      exact List.mem_cons_self
    · rw [History.consumptions_of_some rfl] at hm
      cases List.mem_cons.mp hm
      case inl hm =>
        have ⟨_, hi, hj, _⟩ := h.issued _ _ hw
        rw [←hk, hm, hd hj]
        exact hi
      case inr hm => exact hk ▸ (h.consumed c hm).1

theorem run_traced (hr : (system σ tokenDigest).Run history world) (hd : tokenDigest.Injective)
    (hf : history.Fresh) : world.Traced tokenDigest history := by
  induction hr
  case init hi => exact hi ▸ .new
  case step r hs hi =>
    have hc := (consistent σ tokenDigest).run r
    exact (step_effect hc hs).traced hc (hi hf.tail) hd hf

-- Nothing but its own consumption removes a handoff before it expires.
theorem Effect.keeps {digest record} (he : Effect tokenDigest world operation result world')
    (hc : world.Consistent) (hl : world.registry.entries[digest]? = some record)
    (hn : ∀ now, operation.clock = some now → now < record.expiresUnixMs) :
    world'.registry.entries[digest]? = some record ∨
    ∃ c, Operation.consumption (operation, result) = some c ∧ tokenDigest c.token = digest ∧
      c.record = record ∧ c.principalId = record.principalId := by
  have hp {now : Nat} (ht : operation.clock = some now) :
      (world.takeExpired now).registry.entries[digest]? = some record :=
    lookup_takeExpired.mpr ⟨hl, hn now ht⟩
  have htake {principalId token now r} (ht : operation.clock = some now)
      (hf : world.registry.Found principalId (tokenDigest token) now r) :
      ((world.takeExpired now).remove (tokenDigest token)).registry.entries[digest]? = some record ∨
      tokenDigest token = digest ∧ r = record ∧ principalId = record.principalId := by
    by_cases hk : tokenDigest token = digest
    case pos =>
      have hr : r = record := Option.some.inj <| hf.lookup.symm.trans (hk ▸ hl)
      exact .inr ⟨hk, hr, hr ▸ hf.principal.symm⟩
    case neg =>
      refine .inl ?_
      rw [lookup_remove, if_neg hk]
      exact hp ht
  have hdrop {reservation} (hm : reservation ∈ world.reservations) :
      (world.dropReservation reservation).registry.entries[digest]? = some record :=
    (Consistent.of_dropReservation hc hm).2.2.1 ▸ hl
  cases he
  case refused             => exact .inl hl
  case purged ht           => exact .inl <| hp ht
  case inspected           => exact .inl <| hp rfl
  case reserved            => exact .inl <| hp rfl
  case mismatched hm _     => exact .inl <| hdrop hm
  case dropped hm          => exact .inl <| hdrop hm
  case taken hf            => exact (htake rfl hf).imp_right fun h => ⟨_, rfl, h⟩
  case replaced hf _ _     => exact (htake rfl hf).imp_right fun h => ⟨_, rfl, h⟩
  case issued reservation r now hm hi =>
    have hk : reservation.digest ≠ digest := fun hk =>
      hc.disjoint _ (hc.held.subset hm <| Finset.mem_singleton_self _) <| hk ▸ mem_of_lookup hl
    refine .inl ?_
    rw [lookup_insert, if_neg hk]
    exact hdrop hm

theorem handoffs_safe (hd : tokenDigest.Injective)
    (hr : (system σ tokenDigest).Run history world) (hf : history.Fresh) :
    ((∀ p, world.registry.reserved p = world.reservations.countP fun r => r.principalId = p) ∧
      world.registry.reservedByPrincipal.valueSum id = world.registry.reservedTokens.card) ∧
    (∀ digest ∈ world.registry.reservedTokens, digest ∉ world.registry.entries) ∧
    (world.registry.entries.size + world.registry.reservedTokens.card ≤ maxHandoffs ∧
      ∀ p, world.registry.live p + world.registry.reserved p ≤ maxHandoffsPerPrincipal) ∧
    (∀ operation result world', (system σ tokenDigest).Step world operation result world' →
      ∀ digest record, world.registry.entries[digest]? = some record →
        (∀ now, operation.clock = some now → now < record.expiresUnixMs) →
        world'.registry.entries[digest]? = some record ∨
        ∃ c, Operation.consumption (operation, result) = some c ∧ tokenDigest c.token = digest ∧
          c.record = record ∧ c.principalId = record.principalId) ∧
    (history.consumptions.map (·.token)).Nodup ∧
    (∀ c ∈ history.consumptions, c.now < c.record.expiresUnixMs ∧
      c.record.principalId = c.principalId ∧ history.Issued c.token c.record) ∧
    (∀ reservation ∈ world.reservations, ∀ record now,
      (world.apply tokenDigest (.issue reservation record now)).1 =
        if record.principalId = reservation.principalId then
          .ok (.token reservation.token)
        else
          .error principalMismatch) := by
  have hc := (consistent σ tokenDigest).run hr
  have ht := run_traced hr hd hf
  refine ⟨⟨hc.counted, hc.summed⟩, hc.disjoint, ⟨hc.shared, hc.principal⟩, ?keeps, ht.once, ht.valid,
    ?issue⟩
  case keeps => exact fun _ _ _ hs _ _ hl hn => (step_effect hc hs).keeps hc hl hn
  case issue =>
    intro reservation hm record now
    split
    case isTrue hp  => rw [issue_ok hc hm hp]
    case isFalse hp => rw [issue_mismatch hp]

-- A handoff can be inspected by its principal until it expires.
theorem inspect_ok {bytes : Vector UInt8 tokenBytes} {record now}
    (hl : world.registry.entries[tokenDigest (urlSafeNoPad bytes.toList)]? = some record)
    (hn : now < record.expiresUnixMs) :
    (world.apply tokenDigest (.inspect record.principalId (urlSafeNoPad bytes.toList) now)).1 =
      .ok (.inspected record) := by
  rw [apply_inspect <| inspect_of_found (tokenLengthValid_urlSafeNoPad bytes) ⟨hl, rfl, hn⟩]

-- A handoff of the token that encodes zero bytes, whose digest is the one that SHA-256 gives it.

def sampleDigest : String → String :=
  Equiv.swap "AAAAAAAAAAAAAAAAAAAAAAAAAAAAAAAAAAAAAAAAAAA"
    "a7dcfc9b84671ed196acbad676f2281369961a4867a1886e0ebb7856a613aa55"

def sampleBytes : Vector UInt8 tokenBytes :=
  .replicate tokenBytes 0

def sampleReservation : HandoffReservation :=
  .generate sampleDigest "alice" sampleBytes

def sampleRecord : HandoffRecord Unit where
  principalId   := "alice"
  expiresUnixMs := 60
  content       := ()

def sampleReserve : Operation Unit :=
  .reserve "alice" (some sampleBytes) 10

def sampleIssue : Operation Unit :=
  .issue sampleReservation sampleRecord 20

def sampleTake : Operation Unit :=
  .take "alice" sampleReservation.token 30

def afterReserve : Result Unit × World Unit :=
  World.new.apply sampleDigest sampleReserve

def afterIssue : Result Unit × World Unit :=
  afterReserve.2.apply sampleDigest sampleIssue

def afterTake : Result Unit × World Unit :=
  afterIssue.2.apply sampleDigest sampleTake

def sampleHistory : History Unit :=
  [(sampleTake, afterTake.1), (sampleIssue, afterIssue.1), (sampleReserve, afterReserve.1)]

theorem run_afterTake : (system Unit sampleDigest).Run sampleHistory afterTake.2 := by
  have hm : sampleReservation ∈ afterReserve.2.reservations := by decide +kernel
  have hr : (system Unit sampleDigest).Run _ afterReserve.2 :=
    .step (i := sampleReserve) (.init rfl) ⟨trivial, rfl⟩
  have hi : (system Unit sampleDigest).Run _ afterIssue.2 :=
    hr.step (i := sampleIssue) ⟨hm, rfl⟩
  exact hi.step (i := sampleTake) ⟨trivial, rfl⟩

theorem handoffs_safe_taken :
    sampleHistory.consumptions.map (·.token) = [sampleReservation.token] ∧
    ∀ c ∈ sampleHistory.consumptions, c.now < c.record.expiresUnixMs ∧
      c.record.principalId = c.principalId ∧ sampleHistory.Issued c.token c.record := by
  have hf : sampleHistory.generatedTokens.Nodup := by decide +kernel
  exact ⟨by decide +kernel, (handoffs_safe (Equiv.injective _) run_afterTake hf).2.2.2.2.2.1⟩

end RuntimeControl.Handoff
