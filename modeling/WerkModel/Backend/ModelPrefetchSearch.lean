import WerkModel.Backend.ModelPrefetch
import WerkModel.Lib.Search

-- The literal searches for expert weights find what the regular expressions of upstream find.
open Search

namespace Backend.ModelPrefetch

variable {name before text number pattern sep tail : List Char} {c x : Char} {count : UInt32}
variable {layer : Nat}

def expertRegex : RegularExpression Char :=
  lit ".ffn_".toList *
  (lit "up".toList + lit "down".toList + lit "gate".toList + lit "gate_up".toList) *
  lit "_".toList * (lit "ch".toList + lit "".toList) * lit "exps".toList

def layerRegex (layer : Nat) : RegularExpression Char :=
  lit "blk.".toList * lit (toString layer).toList * expertRegex

theorem exact_expertRegex : Exact expertRegex expertPatterns :=
  ((((exact_lit _).mul <| (((exact_lit _).add <| exact_lit _).add <| exact_lit _).add <|
    exact_lit _).mul <| exact_lit _).mul <| (exact_lit _).add <| exact_lit _).mul (exact_lit _)
    |>.perm (by decide)

theorem exact_layerRegex : Exact (layerRegex layer)
    (expertPatterns.map ("blk.".toList ++ (toString layer).toList ++ ·)) := by
  have hl := (exact_lit "blk.".toList).mul <| exact_lit (toString layer).toList
  have h := hl.mul exact_expertRegex
  simp only [List.flatMap_cons, List.flatMap_nil, List.map_cons, List.map_nil, List.append_nil] at h
  exact h

-- The search for all occurrences.

theorem mem_matchIndices_iff :
    before ∈ matchIndices name pattern ↔ ∃ rest, name = before ++ (pattern ++ rest) := by
  simp only [matchIndices, List.mem_filterMap, List.mem_range, Option.ite_none_right_eq_some]
  constructor
  case mp =>
    intro ⟨start, _, ⟨rest, hr⟩, hb⟩
    exact ⟨rest, by rw [hr, ←Option.some.inj hb, List.take_append_drop]⟩
  case mpr =>
    intro ⟨rest, he⟩
    refine ⟨before.length, ?_, ?_, ?_⟩
    · rw [he, List.length_append]
      omega
    · rw [he, List.drop_left]
      exact List.prefix_append ..
    · rw [he, List.take_left]

theorem expertPatterns_dot (h : pattern ∈ expertPatterns) :
    ∃ tail, pattern = '.' :: tail ∧ '.' ∉ tail := by
  have hd : ∀ pattern ∈ expertPatterns, pattern.head? = some '.' ∧ '.' ∉ pattern.tail := by decide
  have ⟨hh, ht⟩ := hd pattern h
  exact ⟨pattern.tail, (List.cons_head?_tail hh).symm, ht⟩

-- The patterns do not overlap, so that nothing is lost by searching on behind an occurrence.
theorem mem_scan_iff_mem_matchIndices (h : pattern ∈ expertPatterns) :
    before ∈ scan pattern name ↔ before ∈ matchIndices name pattern := by
  have ⟨tail, hp, ht⟩ := expertPatterns_dot h
  rw [hp, mem_scan_iff ht, mem_matchIndices_iff]

-- The last occurrence of a separator.

theorem afterLast_cons : afterLast sep (x :: text) =
    (afterLast sep text).or
      (if sep <+: x :: text then some ((x :: text).drop sep.length) else none) := by
  rw [afterLast, List.tails_cons, List.reverse_cons, List.findSome?_append,
    List.findSome?_singleton]
  rfl

theorem of_afterLast (h : afterLast sep text = some number) :
    ∃ before, text = before ++ (sep ++ number) := by
  have ⟨tail, hm, ht⟩ := List.exists_of_findSome?_eq_some h
  have ⟨hp, hn⟩ := Option.ite_none_right_eq_some.mp ht
  have ⟨before, hb⟩ := (List.mem_tails tail text).mp <| List.mem_reverse.mp hm
  have ⟨rest, hr⟩ := hp
  rw [←hr, List.drop_left] at hn
  exact ⟨before, by rw [←hb, ←hr, Option.some.inj hn]⟩

theorem afterLast_eq_none (h : c ∉ text) : afterLast (c :: tail) text = none := by
  induction text
  case nil => rfl
  case cons x text hi =>
    rw [List.mem_cons, not_or] at h
    rw [afterLast_cons, hi h.2, if_neg <| prefix_cons_iff_of_ne (Ne.symm h.1)]
    rfl

theorem afterLast_append (h : c ∉ tail ++ number) :
    afterLast (c :: tail) (before ++ (c :: tail ++ number)) = some number := by
  induction before
  case nil =>
    rw [List.nil_append, List.cons_append, afterLast_cons, afterLast_eq_none h]
    simp
  case cons x before hi => rw [List.cons_append, afterLast_cons, hi, Option.some_or]

-- The numbers of layers.

-- A number of 32 bits may have a sign.
def parseU32 (text : List Char) : Option UInt32 :=
  let digits := if text.head? = some '+' then text.tail else text
  if digits ≠ [] ∧ digits.all Char.isDigit ∧ Nat.ofDigitChars 10 digits 0 < 2 ^ 32 then
    some <| .ofNat <| Nat.ofDigitChars 10 digits 0
  else
    none

theorem isLayerBelow_iff : isLayerBelow count number ↔
    ∃ layer < count.toNat, number = (toString layer).toList := by
  rw [isLayerBelow]
  split
  case h_1 hn =>
    refine iff_of_false nofun fun ⟨layer, _, he⟩ => ?_
    rw [he, String.ofList_toList] at hn
    exact absurd (hn.symm.trans layer.toNat?_repr) nofun
  case h_2 layer hl =>
    rw [decide_eq_true_eq]
    constructor
    case mp  => exact fun h => ⟨layer, h⟩
    case mpr =>
      intro ⟨layer', hc, he⟩
      rw [he, String.ofList_toList] at hl
      cases Option.some.inj <| hl.symm.trans layer'.toNat?_repr
      exact ⟨hc, he⟩

theorem digits_toString (hd : c ∈ (toString layer).toList) : c.isDigit := by
  have h : (toString layer).toList = Nat.toDigits 10 layer := Nat.toList_repr
  rw [h] at hd
  exact Nat.isDigit_of_mem_toDigits (by decide) (by decide) hd

theorem parseU32_toString (h : layer < 2 ^ 32) :
    parseU32 (toString layer).toList = some (.ofNat layer) := by
  have ht : (toString layer).toList = Nat.toDigits 10 layer := Nat.toList_repr
  have hs : (toString layer).toList.head? ≠ some '+' := fun hs =>
    absurd (digits_toString <| List.mem_of_mem_head? hs) (by decide)
  have ha : (toString layer).toList.all Char.isDigit :=
    List.all_eq_true.mpr fun _ => digits_toString
  have hn : Nat.ofDigitChars 10 (toString layer).toList 0 = layer := by
    rw [ht, Nat.ofDigitChars_ten_toDigits]
  have he : (toString layer).toList ≠ [] := by
    rw [ht]
    exact Nat.toDigits_ne_nil
  rw [parseU32, if_neg hs, hn, if_pos ⟨he, ha, h⟩]

-- A number with a sign or leading zeros is not printed like this, and larger numbers are no layers.
theorem isLayerBelow_iff_parseU32 : isLayerBelow count number ↔
    ∃ layer, parseU32 number = some layer ∧ layer < count ∧ number = (toString layer).toList := by
  rw [isLayerBelow_iff]
  constructor
  case mp =>
    intro ⟨layer, hl, he⟩
    have hb : layer < 2 ^ 32 := hl.trans count.toNat_lt
    have ho : (UInt32.ofNat layer).toNat = layer := UInt32.toNat_ofNat_of_lt' hb
    refine ⟨.ofNat layer, he ▸ parseU32_toString hb, ?_, ?_⟩
    · rwa [UInt32.lt_iff_toNat_lt, ho]
    · rw [he]
      exact congrArg (fun n : Nat => (toString n).toList) ho.symm
  case mpr => exact fun ⟨layer, _, hl, he⟩ => ⟨layer.toNat, UInt32.lt_iff_toNat_lt.mp hl, he⟩

-- The search goes on behind each occurrence, and reads the numbers as such of 32 bits.
theorem matchesExpert_iff_scan {placement : CpuMoePlacement} : matchesExpert name placement ↔
    ∃ pattern ∈ expertPatterns, ∃ before ∈ scan pattern name,
      match placement with
      | .all               => True
      | .firstLayers count => ∃ number ∈ afterLast "blk.".toList before, ∃ layer,
        parseU32 number = some layer ∧ layer < count ∧ number = (toString layer).toList := by
  simp only [matchesExpert, List.any_eq_true]
  refine exists_congr fun pattern => and_congr_right fun hp => exists_congr fun before => ?_
  rw [mem_scan_iff_mem_matchIndices hp]
  refine and_congr_right fun _ => ?_
  cases placement
  case all => exact iff_of_true rfl trivial
  case firstLayers count =>
    simp only [Option.any_eq_true, isLayerBelow_iff_parseU32, Option.mem_def]

theorem matchesExpert_all_iff : matchesExpert name .all ↔ Found expertRegex name := by
  simp only [matchesExpert, List.any_eq_true, found_iff, exact_expertRegex _,
    mem_matchIndices_iff, and_true]

theorem matchesExpert_firstLayers_iff : matchesExpert name (.firstLayers count) ↔
    ∃ layer < count.toNat, Found (layerRegex layer) name := by
  simp only [matchesExpert, List.any_eq_true, found_iff, exact_layerRegex _, mem_matchIndices_iff,
    Option.any_eq_true, isLayerBelow_iff, List.mem_map]
  constructor
  case mp =>
    intro ⟨pattern, hp, before, ⟨rest, hr⟩, number, hn, layer, hl, he⟩
    have ⟨front, hf⟩ := of_afterLast hn
    exact ⟨layer, hl, _, ⟨pattern, hp, rfl⟩, front, rest, by simp [hr, hf, he]⟩
  case mpr =>
    intro ⟨layer, hl, _, ⟨pattern, hp, he⟩, front, rest, hr⟩
    refine ⟨pattern, hp, front ++ ("blk.".toList ++ (toString layer).toList), ⟨rest, ?_⟩,
      (toString layer).toList, ?_, layer, hl, rfl⟩
    · simp [hr, ←he]
    · refine afterLast_append fun hm => ?_
      cases List.mem_append.mp hm
      case inl hm => exact absurd hm (by decide)
      case inr hm => exact absurd (digits_toString hm) (by decide)

theorem matchesExpert_iff_search (name : List Char) :
    (matchesExpert name .all ↔ Found expertRegex name) ∧
    ∀ count, matchesExpert name (.firstLayers count) ↔
      ∃ layer < count.toNat, Found (layerRegex layer) name :=
  ⟨matchesExpert_all_iff, fun _ => matchesExpert_firstLayers_iff⟩

end Backend.ModelPrefetch
