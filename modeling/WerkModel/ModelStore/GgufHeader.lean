import WerkModel.ModelStore.GgufInspection

-- The headers of GGUF files, as values and as what the inspector reads.
open Formats

namespace ModelStore.Gguf

open GgufReader

variable {reader reader' : GgufReader} {n : Nat} {bytes : List UInt8}

section Cursors

namespace GgufReader

def Inside (reader : GgufReader) : Prop :=
  reader.rest.length + reader.position = reader.size ∧ reader.position ≤ headerLimit

structure Moves (reader : GgufReader) (bytes : List UInt8) (reader' : GgufReader) : Prop where
  rest     : reader.rest = bytes ++ reader'.rest
  position : reader'.position = reader.position + bytes.length
  size     : reader'.size = reader.size
  limit    : reader'.position ≤ headerLimit

-- A failure has not overflown, and has consumed no more than a header may be long.
def Stops (reader : GgufReader) (failure : Failure) (reader' : GgufReader) : Prop :=
  failure ≠ .overflow ∧ ∃ bytes, reader.rest = bytes ++ reader'.rest ∧
    reader.position + bytes.length ≤ headerLimit

end GgufReader

instance instCursor : Cursor Failure GgufReader where
  Inside := GgufReader.Inside
  Moves  := GgufReader.Moves
  Stops  := GgufReader.Stops
  inside_of_moves hi hm := by
    refine ⟨?_, hm.limit⟩
    rw [hm.position, hm.size, ← hi.left, hm.rest, List.length_append]
    omega
  moves_nil {s s'} hi := by
    constructor
    case mp =>
      intro hm
      obtain ⟨rest, size, position⟩ := s
      obtain ⟨rest', size', position'⟩ := s'
      obtain ⟨hr, hp, hs, -⟩ := hm
      cases hr
      cases hp
      cases hs
      rfl
    case mpr =>
      rintro rfl
      exact ⟨rfl, rfl, rfl, hi.right⟩
  moves_append {s s'} first rest hi := by
    constructor
    case mp =>
      intro hm
      have hp := hm.position
      have hl := hm.limit
      rw [List.length_append] at hp
      refine ⟨⟨rest ++ s'.rest, s.size, s.position + first.length⟩, ⟨?_, rfl, rfl, ?_⟩,
        ⟨rfl, ?_, hm.size, hl⟩⟩
      · rw [hm.rest, List.append_assoc]
      · exact (by omega : s.position + first.length ≤ headerLimit)
      · rw [hp, Nat.add_assoc]
    case mpr =>
      rintro ⟨m, hm, hm'⟩
      refine ⟨?_, ?_, hm'.size.trans hm.size, hm'.limit⟩
      · rw [hm.rest, hm'.rest, List.append_assoc]
      · rw [hm'.position, hm.position, List.length_append, Nat.add_assoc]
  stops_of_moves {s s' s'' e} first hi hm := by
    rintro ⟨he, rest, hr, hl⟩
    refine ⟨he, first ++ rest, ?_, ?_⟩
    · rw [hm.rest, hr, List.append_assoc]
    · rw [hm.position] at hl
      rw [List.length_append]
      omega

theorem stops_rejected {message : String} (h : reader.Inside) :
    reader.Stops (.rejected message) reader :=
  ⟨by simp, [], rfl, h.right⟩

end Cursors

section Primitives

variable {α β : Type} {c : Prop} [Decidable c] {message : String}

theorem reads_bail {q : Reader β} {H : Format β} (hq : ¬c → Reads q H) :
    Reads (bail c message >>= fun _ => q) fun bytes b => ¬c ∧ H bytes b :=
  Reads.check (fun _ h => stops_rejected h) hq

theorem reads_context {o : Option α} :
    Reads (context o message) fun bytes a => bytes = [] ∧ o = some a :=
  Reads.orThrow fun _ h => stops_rejected h

theorem checked_eq_some {a : Nat} : checked n = some a ↔ a = n ∧ n < 2 ^ 64 := by
  rw [checked]
  split <;> grind

theorem advance_ok (h : reader.position + n ≤ reader.size)
    (hl : reader.position + n ≤ headerLimit) :
    advance n reader = .ok () { reader with position := reader.position + n } := by
  have hlimit : headerLimit < 2 ^ 64 := by decide
  have hc : checked (reader.position + n) = some (reader.position + n) :=
    checked_eq_some.mpr ⟨rfl, by omega⟩
  have hn : ¬(reader.size < reader.position + n ∨ headerLimit < reader.position + n) := by omega
  simp only [advance, context, bail, orThrow, check, hc, bind, EStateM.bind, get, getThe,
    MonadStateOf.get, EStateM.get, pure, EStateM.pure, set, MonadStateOf.set, EStateM.set,
    if_pos hn]

theorem advance_error (h : ¬(reader.position + n ≤ reader.size ∧
    reader.position + n ≤ headerLimit)) : ∃ message position,
      advance n reader = .error (.rejected message) { reader with position } := by
  have hn : reader.size < reader.position + n ∨ headerLimit < reader.position + n := by omega
  cases hc : checked (reader.position + n)
  case none =>
    refine ⟨"GGUF header overflow", reader.position, ?_⟩
    simp only [advance, context, orThrow, hc, bind, EStateM.bind, get, getThe,
      MonadStateOf.get, EStateM.get, throw, throwThe, MonadExceptOf.throw, EStateM.throw]
  case some position =>
    obtain ⟨rfl, -⟩ := checked_eq_some.mp hc
    refine ⟨"truncated or oversized GGUF header", reader.position + n, ?_⟩
    simp only [advance, context, bail, orThrow, check, hc, bind, EStateM.bind, get, getThe,
      MonadStateOf.get, EStateM.get, pure, EStateM.pure, set, MonadStateOf.set, EStateM.set,
      if_neg (not_not.mpr hn), throw, throwThe, MonadExceptOf.throw, EStateM.throw]

-- A reader that takes a number of bytes reads all of that length.
theorem reads_take {p : Reader α} {f : List UInt8 → α}
    (hok : ∀ reader : GgufReader, reader.Inside → reader.position + n ≤ reader.size →
      reader.position + n ≤ headerLimit → p reader = .ok (f (reader.rest.take n))
        ⟨reader.rest.drop n, reader.size, reader.position + n⟩)
    (herror : ∀ reader : GgufReader, ¬(reader.position + n ≤ reader.size ∧
      reader.position + n ≤ headerLimit) → ∃ message position,
        p reader = .error (.rejected message) { reader with position }) :
    Reads p fun bytes a => bytes.length = n ∧ a = f bytes where
  ok reader a reader' hi := by
    constructor
    case mp =>
      intro h
      by_cases hf : reader.position + n ≤ reader.size ∧ reader.position + n ≤ headerLimit
      case pos =>
        rw [hok reader hi hf.left hf.right] at h
        cases h
        have hlen : (reader.rest.take n).length = n := by
          have := hi.left
          rw [List.length_take]
          omega
        refine ⟨reader.rest.take n, ⟨hlen, rfl⟩, ?_, ?_, rfl, hf.right⟩
        · exact (List.take_append_drop n reader.rest).symm
        · exact congrArg (reader.position + ·) hlen.symm
      case neg =>
        obtain ⟨message, position, he⟩ := herror reader hf
        cases he.symm.trans h
    case mpr =>
      rintro ⟨bytes, ⟨rfl, rfl⟩, hm⟩
      have hi' := Cursor.inside_of_moves hi hm
      obtain ⟨rest, size, position⟩ := reader
      obtain ⟨rest', size', position'⟩ := reader'
      obtain ⟨hr, hp, hs, hl⟩ := hm
      simp only at hr hp hs hl
      obtain ⟨hsize, -⟩ := hi'
      simp only at hsize
      subst hr hp hs
      rw [hok _ hi (by simp only; omega) hl, List.take_left, List.drop_left]
  error reader failure reader' hi h := by
    by_cases hf : reader.position + n ≤ reader.size ∧ reader.position + n ≤ headerLimit
    case pos =>
      rw [hok reader hi hf.left hf.right] at h
      cases h
    case neg =>
      obtain ⟨message, position, he⟩ := herror reader hf
      cases he.symm.trans h
      exact ⟨by simp, [], rfl, hi.right⟩

theorem reads_bytes : Reads (GgufReader.bytes n) fun bytes a => bytes.length = n ∧ a = bytes := by
  refine reads_take (f := id) (fun reader hi hs hl => ?_) fun reader hf => ?_
  · have hn : ¬reader.rest.length < n := by
      have := hi.left
      omega
    simp only [GgufReader.bytes, readExact, bail, check, advance_ok hs hl, bind, EStateM.bind, get,
      getThe, MonadStateOf.get, EStateM.get, pure, EStateM.pure, set, MonadStateOf.set,
      EStateM.set, if_pos hn, id]
  · obtain ⟨message, position, he⟩ := advance_error hf
    exact ⟨message, position, by simp only [GgufReader.bytes, bind, EStateM.bind, he]⟩

theorem reads_skip : Reads (skip n) fun bytes _ => bytes.length = n := by
  have h : Reads (skip n) fun bytes a => bytes.length = n ∧ a = () := by
    refine reads_take (f := fun _ => ()) (fun reader hi hs hl => ?_) fun reader hf => ?_
    · have hlimit : headerLimit < 2 ^ 63 := by decide
      have hn : ¬2 ^ 63 ≤ n := by omega
      simp only [skip, bail, check, advance_ok hs hl, bind, EStateM.bind, pure, EStateM.pure,
        if_pos hn, modify, modifyGet, MonadStateOf.modifyGet, EStateM.modifyGet]
    · obtain ⟨message, position, he⟩ := advance_error hf
      exact ⟨message, position, by simp only [skip, bind, EStateM.bind, he]⟩
  exact h.congr fun bytes a => by simp

theorem reads_number {width : Nat} : Reads (fromLe <$> GgufReader.bytes width) fun bytes a =>
    bytes = toLe width a ∧ a < 256 ^ width :=
  reads_bytes.map.congr fun bytes a => by
    rw [eq_toLe_iff]
    grind

theorem reads_u32 : Reads u32 fun bytes a => bytes = toLe 4 a ∧ a < 2 ^ 32 :=
  reads_number

theorem reads_u64 : Reads u64 fun bytes a => bytes = toLe 8 a ∧ a < 2 ^ 64 :=
  reads_number

end Primitives

section Values

def utf8 (text : String) : List UInt8 :=
  text.toByteArray.data.toList

def encodeString (text : String) : List UInt8 :=
  toLe 8 (utf8 text).length ++ utf8 text

-- A value that is no array. Nothing but its length is known of it.
inductive Item
  | scalar (kind : Nat) (payload : List UInt8)
  | string (payload : List UInt8)

namespace Item

def kind : Item → Nat
  | scalar kind _ => kind
  | string _      => 8

def encode : Item → List UInt8
  | scalar _ payload => payload
  | string payload   => toLe 8 payload.length ++ payload

def Valid : Item → Prop
  | scalar kind payload => scalarWidth kind = some payload.length
  | string payload      => payload.length < 2 ^ 64

end Item

inductive Value
  | single (item : Item)
  | array (kind : Nat) (items : List Item)

namespace Value

def kind : Value → Nat
  | single item => item.kind
  | array _ _   => 9

def encode : Value → List UInt8
  | single item      => item.encode
  | array kind items => toLe 4 kind ++ toLe 8 items.length ++ items.flatMap Item.encode

-- Arrays are flat, and one without elements may be of any kind.
def Valid : Value → Prop
  | single item      => item.Valid
  | array kind items => kind < 2 ^ 32 ∧ items.length ≤ 16000000 ∧
    ∀ item ∈ items, item.Valid ∧ item.kind = kind

end Value

theorem Item.kind_ne {item : Item} (h : item.Valid) : item.kind ≠ 9 := by
  cases item
  case scalar kind payload =>
    rintro rfl
    cases h
  case string payload => exact (by decide : 8 ≠ 9)

theorem fromUTF8?_eq_some {text : String} :
    String.fromUTF8? ⟨bytes.toArray⟩ = some text ↔ bytes = utf8 text := by
  rw [String.fromUTF8?, utf8]
  constructor
  case mp =>
    intro h
    split at h
    case isTrue  =>
      cases h
      rfl
    case isFalse => cases h
  case mpr =>
    rintro rfl
    exact dif_pos text.isValidUTF8

theorem reads_string : Reads GgufReader.string fun bytes text =>
    bytes = encodeString text ∧ (utf8 text).length ≤ stringLimit := by
  refine (reads_u64.bind fun n _ _ => reads_bail fun _ => reads_bytes.bind fun bytes _ _ =>
    reads_context).congr fun bytes text => ?_
  simp only [fromUTF8?_eq_some, Nat.not_lt]
  constructor
  case mp =>
    rintro ⟨first, rest, n, rfl, ⟨rfl, -⟩, hn, all, last, payload, rfl, ⟨rfl, rfl⟩, rfl, rfl⟩
    exact ⟨by rw [List.append_nil]; rfl, hn⟩
  case mpr =>
    rintro ⟨rfl, hl⟩
    have hlimit : stringLimit < 2 ^ 64 := by decide
    exact ⟨_, _, (utf8 text).length, rfl, ⟨rfl, by omega⟩, hl, _, [], _, (List.append_nil _).symm,
      ⟨rfl, rfl⟩, rfl, rfl⟩

theorem reads_skipItem {kind : Nat} : Reads (skipItem kind) fun bytes _ =>
    ∃ item : Item, (item.Valid ∧ item.kind = kind) ∧ bytes = item.encode := by
  rw [skipItem]
  cases hw : scalarWidth kind
  case some width =>
    refine reads_skip.congr fun bytes _ => ?_
    constructor
    case mp =>
      rintro rfl
      exact ⟨.scalar kind bytes, ⟨hw, rfl⟩, rfl⟩
    case mpr =>
      rintro ⟨item, ⟨hv, rfl⟩, rfl⟩
      cases item
      case scalar kind payload => exact Option.some.inj (hv.symm.trans hw)
      case string payload      => cases hw
  case none =>
    refine (reads_bail fun _ => reads_u64.bind fun n _ _ => reads_skip).congr fun bytes _ => ?_
    constructor
    case mp =>
      rintro ⟨hk, first, rest, n, rfl, ⟨rfl, hn⟩, rfl⟩
      exact ⟨.string rest, ⟨hn, (not_not.mp hk).symm⟩, rfl⟩
    case mpr =>
      rintro ⟨item, ⟨hv, rfl⟩, rfl⟩
      cases item
      case scalar kind payload => cases hv.symm.trans hw
      case string payload      =>
        exact ⟨not_not.mpr rfl, _, _, payload.length, rfl, ⟨rfl, hv⟩, rfl⟩

theorem reads_skipValue {kind : Nat} : Reads (skipValue kind) fun bytes _ =>
    ∃ value : Value, (value.Valid ∧ value.kind = kind) ∧ bytes = value.encode := by
  rw [skipValue]
  have hloop {kind count : Nat} : Reads (iterate (fun _ => skipItem kind) count ())
      fun bytes _ => ∃ items : List Item, items.length = count ∧
        (∀ item ∈ items, item.Valid ∧ item.kind = kind) ∧ bytes = items.flatMap Item.encode := by
    have hitem : Reads (skipItem kind) fun bytes (_ : Unit) => ∃ item : Item,
        (item.Valid ∧ item.kind = kind) ∧ bytes = item.encode ∧ () = () :=
      reads_skipItem.congr fun bytes _ => by simp
    refine (Reads.listed (I := fun _ => True) (fun _ _ => hitem) (fun _ _ _ _ => trivial)
      trivial).congr fun bytes _ => ?_
    simp only [Format.mem_listed_iff, and_true]
  refine (Reads.ite (fun _ => reads_u32.bind fun kind _ _ => reads_u64.bind fun count _ _ =>
    reads_bail fun _ => hloop) fun _ => reads_skipItem).congr fun bytes _ => ?_
  split
  case isTrue hk =>
    constructor
    case mp =>
      rintro ⟨_, _, kind', rfl, ⟨rfl, hk'⟩, _, _, count, rfl, ⟨rfl, -⟩, hc, items, rfl, hv, rfl⟩
      exact ⟨.array kind' items, ⟨⟨hk', Nat.not_lt.mp hc, hv⟩, hk.symm⟩,
        (List.append_assoc ..).symm⟩
    case mpr =>
      rintro ⟨value, ⟨hv, hkind⟩, rfl⟩
      cases value
      case single item          => exact absurd (hkind.trans hk) (Item.kind_ne hv)
      case array kind' items =>
        obtain ⟨hk', hc, hv⟩ := hv
        exact ⟨_, _, kind', List.append_assoc .., ⟨rfl, hk'⟩, _, _, items.length, rfl,
          ⟨rfl, by omega⟩, Nat.not_lt.mpr hc, items, rfl, hv, rfl⟩
  case isFalse hk =>
    constructor
    case mp =>
      rintro ⟨item, ⟨hv, hkind⟩, rfl⟩
      exact ⟨.single item, ⟨hv, hkind⟩, rfl⟩
    case mpr =>
      rintro ⟨value, ⟨hv, hkind⟩, rfl⟩
      cases value
      case single item => exact ⟨item, ⟨hv, hkind⟩, rfl⟩
      case array       => exact absurd hkind.symm hk

end Values

section Entries

def architectureKey : String := "general.architecture"

def alignmentKey : String := "general.alignment"

-- The entries of the metadata, among which two are read and any others only skipped.
inductive Entry
  | architecture (name : String)
  | alignment (bytes : Nat)
  | other (key : String) (value : Value)

namespace Entry

def encode : Entry → List UInt8
  | architecture name => encodeString architectureKey ++ toLe 4 8 ++ encodeString name
  | alignment bytes   => encodeString alignmentKey ++ toLe 4 4 ++ toLe 4 bytes
  | other key value   => encodeString key ++ toLe 4 value.kind ++ value.encode

def Valid : Entry → Prop
  | architecture name => (utf8 name).length ≤ stringLimit
  | alignment bytes   => bytes = 2 ^ bytes.log2 ∧ bytes ≤ 1048576
  | other key value   => key ≠ architectureKey ∧ key ≠ alignmentKey ∧
    (utf8 key).length ≤ stringLimit ∧ value.Valid

-- The last entry of a kind counts.
def apply (metadata : Metadata) : Entry → Metadata
  | architecture name => { metadata with architecture := some name }
  | alignment bytes   => { metadata with alignment := bytes }
  | other _ _         => metadata

def architecture? : Entry → Option String
  | architecture name => some name
  | _                 => none

def alignment? : Entry → Option Nat
  | alignment bytes => some bytes
  | _               => none

end Entry

theorem reads_pure {α : Type} {a : α} :
    Reads (pure a : Reader α) fun bytes b => bytes = [] ∧ b = a :=
  Reads.pure

theorem kind_lt {value : Value} (h : value.Valid) : value.kind < 2 ^ 32 := by
  cases value
  case array => exact (by decide : 9 < 2 ^ 32)
  case single item =>
    cases item
    case string => exact (by decide : 8 < 2 ^ 32)
    case scalar kind payload =>
      refine lt_of_le_of_lt (?_ : kind ≤ 12) (by decide)
      by_contra hk
      have hn : scalarWidth kind = none := by
        rw [scalarWidth.eq_def]
        split <;> first | omega | rfl
      cases hn.symm.trans h

theorem reads_readEntry {metadata : Metadata} : Reads (readEntry metadata) fun bytes metadata' =>
    ∃ entry : Entry, entry.Valid ∧ bytes = entry.encode ∧ metadata' = entry.apply metadata := by
  have harch : (utf8 architectureKey).length ≤ stringLimit := by decide
  have halign : (utf8 alignmentKey).length ≤ stringLimit := by decide
  refine (reads_string.bind fun key _ _ => reads_u32.bind fun kind _ _ =>
    Reads.ite (fun _ => reads_bail fun _ => reads_string.bind fun name _ _ => reads_pure)
      fun _ => Reads.ite (fun _ => reads_bail fun _ => reads_u32.bind fun alignment _ _ =>
        reads_bail fun _ => reads_pure)
          fun _ => reads_skipValue.bind fun _ _ _ => reads_pure).congr fun bytes metadata' => ?_
  constructor
  case mp =>
    rintro ⟨_, _, key, rfl, ⟨rfl, hkey⟩, _, _, kind, rfl, ⟨rfl, hkind⟩, h⟩
    split_ifs at h with ha hl
    · obtain ⟨hk, _, _, name, rfl, ⟨rfl, hname⟩, rfl, rfl⟩ := h
      obtain rfl := not_not.mp hk
      subst ha
      exact ⟨.architecture name, hname, by simp [Entry.encode, architectureKey], rfl⟩
    · obtain ⟨hk, _, _, alignment, rfl, ⟨rfl, -⟩, hv, rfl, rfl⟩ := h
      obtain rfl := not_not.mp hk
      subst hl
      rw [not_or, not_not, Nat.not_lt] at hv
      exact ⟨.alignment alignment, hv, by simp [Entry.encode, alignmentKey], rfl⟩
    · obtain ⟨_, _, _, rfl, ⟨value, ⟨hv, rfl⟩, rfl⟩, rfl, rfl⟩ := h
      exact ⟨.other key value, ⟨ha, hl, hkey, hv⟩, by simp [Entry.encode], rfl⟩
  case mpr =>
    rintro ⟨entry, hv, rfl, rfl⟩
    cases entry
    case architecture name =>
      refine ⟨_, _, architectureKey, List.append_assoc .., ⟨rfl, harch⟩, _, _, 8, rfl,
        ⟨rfl, by decide⟩, ?_⟩
      beta_reduce
      rw [if_pos (by rfl : architectureKey = "general.architecture")]
      exact ⟨not_not.mpr rfl, _, [], name, (List.append_nil _).symm, ⟨rfl, hv⟩, rfl, rfl⟩
    case alignment alignment =>
      refine ⟨_, _, alignmentKey, List.append_assoc .., ⟨rfl, halign⟩, _, _, 4, rfl,
        ⟨rfl, by decide⟩, ?_⟩
      beta_reduce
      rw [if_neg (by decide), if_pos (by rfl : alignmentKey = "general.alignment")]
      refine ⟨not_not.mpr rfl, _, [], alignment, (List.append_nil _).symm, ⟨rfl, ?_⟩, ?_, rfl, rfl⟩
      · exact lt_of_le_of_lt hv.right (by decide)
      · rw [not_or, not_not, Nat.not_lt]
        exact hv
    case other key value =>
      obtain ⟨ha, hl, hkey, hv⟩ := hv
      refine ⟨_, _, key, List.append_assoc .., ⟨rfl, hkey⟩, _, _, value.kind, rfl,
        ⟨rfl, kind_lt hv⟩, ?_⟩
      beta_reduce
      rw [if_neg (by exact ha : ¬key = "general.architecture"),
        if_neg (by exact hl : ¬key = "general.alignment")]
      exact ⟨_, [], (), (List.append_nil _).symm, ⟨value, ⟨hv, rfl⟩, rfl⟩, rfl, rfl⟩

end Entries

end ModelStore.Gguf
