import Snapevent.Core.Value

/-!
# Stored lines

How an envelope is written as a line and what a line is read as: the serialized forms of the records
(`ids.rs`, `units.rs`, `records.rs`) and of the envelope (`envelope.rs`), whose record stands under
`kind` and `data` beside the other members.  The time format is the calendar library's, so it is
a parameter, as are the texts of the decoder's errors.
-/

namespace Snapevent

/-- The serialization libraries: instants are printed as texts that are read back, and a line that
is no envelope and a text that is no instant have messages. -/
structure Serde extends JsonLib where
  timeText : Timestamp → String
  readTime : String → Option Timestamp
  readTime_timeText : ∀ t, readTime (timeText t) = some t
  lineError : String → String
  timeError : String → String

/-! ## Writing -/

/-- A natural number as it is written. -/
def natJson (n : ℕ) : Json := .number (.ofNat n)

/-- A member that is left out when there is none. -/
def optMember (key : String) (v : Option Json) : List (String × Json) :=
  v.toList.map (Prod.mk key)

def Side.json : Side → Json
  | .yes => .string "yes"
  | .no => .string "no"

def BookSide.json : BookSide → Json
  | .bid => .string "bid"
  | .ask => .string "ask"

def PriceLevel.json (l : PriceLevel) : Json :=
  .object [("price", natJson l.price.micro.toNat), ("quantity", natJson l.quantity.centi.toNat)]

def GapReason.json : GapReason → Json
  | .seqJump => .string "seq_jump"
  | .reconnect => .string "reconnect"
  | .resubscribe => .string "resubscribe"
  | .verifyMismatch => .string "verify_mismatch"

def GapMarker.json (g : GapMarker) : Json :=
  .object ([("reason", g.reason.json), ("ticker", .string g.ticker.str),
      ("channel", .string g.channel)] ++
    optMember "last_seq" (g.lastSeq.map fun n => natJson n.toNat) ++
    optMember "observed_seq" (g.observedSeq.map fun n => natJson n.toNat) ++
    [("detail", .string g.detail)])

def RawFallback.json (r : RawFallback) : Json :=
  .object (optMember "raw_type" (r.rawType.map .string) ++
    optMember "ticker" (r.ticker.map fun t => .string t.str) ++
    [("error", .string r.error), ("payload", r.payload.json)])

namespace Serde

variable (serde : Serde)

def timeJson (t : Timestamp) : Json := .string (serde.timeText t)

def snapshotJson (s : OrderbookSnapshot) : Json :=
  .object [("ticker", .string s.ticker.str), ("ts", serde.timeJson s.ts),
    ("yes", .array (s.yes.map PriceLevel.json)), ("no", .array (s.no.map PriceLevel.json))]

def deltaJson (d : OrderbookDelta) : Json :=
  .object [("ticker", .string d.ticker.str), ("ts", serde.timeJson d.ts), ("side", d.side.json),
    ("price", natJson d.price.micro.toNat), ("delta", .number (.ofInt d.delta.centi.toInt))]

def tradeJson (t : Trade) : Json :=
  .object ([("ticker", .string t.ticker.str), ("ts", serde.timeJson t.ts),
      ("price", natJson t.price.micro.toNat), ("count", natJson t.count.centi.toNat),
      ("taker_side", t.takerSide.json)] ++
    optMember "taker_book_side" (t.takerBookSide.map BookSide.json) ++
    optMember "trade_id" (t.tradeId.map .string))

/-- The tag and the body of a record. -/
def kindJson : RecordKind → String × Json
  | .snapshot s => ("snapshot", serde.snapshotJson s)
  | .delta d => ("delta", serde.deltaJson d)
  | .trade t => ("trade", serde.tradeJson t)
  | .gap g => ("gap", g.json)
  | .raw r => ("raw", r.json)
  | .verify s => ("verify", serde.snapshotJson s)

/-- The members of an envelope after its version. -/
def envelopeMembers (env : Envelope) : List (String × Json) :=
  ("recv_ts", serde.timeJson env.recvTs) ::
    (optMember "seq" (env.seq.map fun n => natJson n.toNat) ++
      optMember "sid" (env.sid.map fun n => .number (.ofInt n.toInt)) ++
      [("kind", .string (serde.kindJson env.kind).1), ("data", (serde.kindJson env.kind).2)])

/-- An envelope as it is written. -/
def envelopeJson (env : Envelope) : Json :=
  .object (("v", natJson env.v.toNat) :: serde.envelopeMembers env)

/-- The line of an envelope. -/
def lineText (env : Envelope) : List Char := (serde.envelopeJson env).print

end Serde

/-! ## Reading -/

/-- The members of a record whose fields are called `names`: an object has no other members and
none twice, an array lists the fields in order. -/
def recordFields (names : List String) : Json → Option (List (String × Json))
  | .object members =>
    if (members.map (·.1)).Nodup ∧ ∀ m ∈ members, m.1 ∈ names then some members else none
  | .array xs => if xs.length ≤ names.length then some (names.zip xs) else none
  | _ => none

section Fields

variable {α : Type} (fields : List (String × Json)) (key : String) (read : Json → Option α)

/-- A field that has to be there. -/
def required : Option α := (fields.lookup key).bind read

/-- What is found for a field that may be missing or null. -/
def readOption : Option Json → Option (Option α)
  | none => some none
  | some .null => some none
  | some v => (read v).map some

/-- A field that may be missing or null. -/
def optional : Option (Option α) := readOption read (fields.lookup key)

end Fields

/-- A value of an enumeration without data: its name, or an object that maps its name to nothing. -/
def unitVariant {α : Type} (variants : List (String × α)) : Json → Option α
  | .string s => variants.lookup s
  | .object [(s, .null)] => variants.lookup s
  | .object [(s, .object [])] => variants.lookup s
  | _ => none

def readString : Json → Option String
  | .string s => some s
  | _ => none

def readArray {α : Type} (read : Json → Option α) : Json → Option (List α)
  | .array xs => xs.mapM read
  | _ => none

def readTicker (v : Json) : Option Ticker := (readString v).map Ticker.mk

def readSide : Json → Option Side := unitVariant [("yes", .yes), ("no", .no)]

def readBookSide : Json → Option BookSide := unitVariant [("bid", .bid), ("ask", .ask)]

def readReason : Json → Option GapReason :=
  unitVariant [("seq_jump", .seqJump), ("reconnect", .reconnect), ("resubscribe", .resubscribe),
    ("verify_mismatch", .verifyMismatch)]

namespace JsonLib

variable (lib : JsonLib)

def readU64 (v : Json) : Option UInt64 := (lib.value v).bind Value.asU64

def readI64 (v : Json) : Option Int64 := (lib.value v).bind Value.asI64

def readU32 (v : Json) : Option UInt32 :=
  (lib.readU64 v).bind fun n => if n.toNat < 2 ^ 32 then some (UInt32.ofNat n.toNat) else none

def readU16 (v : Json) : Option UInt16 :=
  (lib.readU64 v).bind fun n => if n.toNat < 2 ^ 16 then some (UInt16.ofNat n.toNat) else none

def readPriceLevel (v : Json) : Option PriceLevel := do
  let fields ← recordFields ["price", "quantity"] v
  return { price := ⟨← required fields "price" lib.readU32⟩
           quantity := ⟨← required fields "quantity" lib.readU64⟩ }

def readGapMarker (v : Json) : Option GapMarker := do
  let fields ← recordFields
    ["reason", "ticker", "channel", "last_seq", "observed_seq", "detail"] v
  return { reason := ← required fields "reason" readReason
           ticker := ← required fields "ticker" readTicker
           channel := ← required fields "channel" readString
           lastSeq := ← optional fields "last_seq" lib.readU64
           observedSeq := ← optional fields "observed_seq" lib.readU64
           detail := ← required fields "detail" readString }

def readRawFallback (v : Json) : Option RawFallback := do
  let fields ← recordFields ["raw_type", "ticker", "error", "payload"] v
  return { rawType := ← optional fields "raw_type" readString
           ticker := ← optional fields "ticker" readTicker
           error := ← required fields "error" readString
           payload := ← required fields "payload" lib.value }

end JsonLib

namespace Serde

variable (serde : Serde)

def time (v : Json) : Option Timestamp := (readString v).bind serde.readTime

def readSnapshot (v : Json) : Option OrderbookSnapshot := do
  let fields ← recordFields ["ticker", "ts", "yes", "no"] v
  return { ticker := ← required fields "ticker" readTicker
           ts := ← required fields "ts" serde.time
           yes := ← required fields "yes" (readArray serde.readPriceLevel)
           no := ← required fields "no" (readArray serde.readPriceLevel) }

def readDelta (v : Json) : Option OrderbookDelta := do
  let fields ← recordFields ["ticker", "ts", "side", "price", "delta"] v
  return { ticker := ← required fields "ticker" readTicker
           ts := ← required fields "ts" serde.time
           side := ← required fields "side" readSide
           price := ⟨← required fields "price" serde.readU32⟩
           delta := ⟨← required fields "delta" serde.readI64⟩ }

def readTrade (v : Json) : Option Trade := do
  let fields ← recordFields
    ["ticker", "ts", "price", "count", "taker_side", "taker_book_side", "trade_id"] v
  return { ticker := ← required fields "ticker" readTicker
           ts := ← required fields "ts" serde.time
           price := ⟨← required fields "price" serde.readU32⟩
           count := ⟨← required fields "count" serde.readU64⟩
           takerSide := ← required fields "taker_side" readSide
           takerBookSide := ← optional fields "taker_book_side" readBookSide
           tradeId := ← optional fields "trade_id" readString }

/-- How the body of each kind is read. -/
def kinds : List (String × (Json → Option RecordKind)) :=
  [("snapshot", fun v => (serde.readSnapshot v).map .snapshot),
    ("delta", fun v => (serde.readDelta v).map .delta),
    ("trade", fun v => (serde.readTrade v).map .trade),
    ("gap", fun v => (serde.readGapMarker v).map .gap),
    ("raw", fun v => (serde.readRawFallback v).map .raw),
    ("verify", fun v => (serde.readSnapshot v).map .verify)]

/-- The members of an envelope that are looked at. -/
def envelopeKeys : List String := ["v", "recv_ts", "seq", "sid", "kind", "data"]

/-- Read an envelope.  Members it does not know are dropped, though their values have to be ones
the library holds. -/
def readEnvelope : Json → Option Envelope
  | .object members =>
    if (members.all fun m => (serde.value m.2).isSome) ∧
        ∀ key ∈ envelopeKeys, (members.map (·.1)).count key ≤ 1 then do
      return { v := ← required members "v" serde.readU16
               recvTs := ← required members "recv_ts" serde.time
               seq := ← optional members "seq" serde.readU64
               sid := ← optional members "sid" serde.readI64
               kind := ← (← required members "kind" (unitVariant serde.kinds))
                 (← members.lookup "data") }
    else none
  | _ => none

/-- Decode a line. -/
def decode (text : String) : Except String Envelope :=
  match (Json.parseWithin nestingLimit text.toList).bind serde.readEnvelope with
  | some env => .ok env
  | none => .error (serde.lineError text)

end Serde

/-! ## What is written is read back -/

section Values

variable (lib : JsonLib)

theorem JsonLib.value_natJson {n : ℕ} (h : n < 2 ^ 64) :
    lib.value (natJson n) = some (.number (.posInt (UInt64.ofNat n))) := by
  simp only [natJson, JsonLib.value, JsonLib.number, JsonNumber.read_ofNat]
  rw [if_pos h]
  rfl

@[simp] theorem JsonLib.readU64_natJson (n : UInt64) : lib.readU64 (natJson n.toNat) = some n := by
  rw [readU64, lib.value_natJson n.toNat_lt, UInt64.ofNat_toNat]
  rfl

@[simp] theorem JsonLib.readU32_natJson (n : UInt32) : lib.readU32 (natJson n.toNat) = some n := by
  have hlt : n.toNat < 2 ^ 32 := n.toNat_lt
  have hnat : (UInt64.ofNat n.toNat).toNat = n.toNat := by
    rw [UInt64.toNat_ofNat']
    exact Nat.mod_eq_of_lt (by omega)
  rw [readU32, readU64, lib.value_natJson (by omega)]
  simp only [Option.bind_some, Value.asU64, hnat]
  rw [if_pos hlt, UInt32.ofNat_toNat]

@[simp] theorem JsonLib.readU16_natJson (n : UInt16) : lib.readU16 (natJson n.toNat) = some n := by
  have hlt : n.toNat < 2 ^ 16 := n.toNat_lt
  have hnat : (UInt64.ofNat n.toNat).toNat = n.toNat := by
    rw [UInt64.toNat_ofNat']
    exact Nat.mod_eq_of_lt (by omega)
  rw [readU16, readU64, lib.value_natJson (by omega)]
  simp only [Option.bind_some, Value.asU64, hnat]
  rw [if_pos hlt, UInt16.ofNat_toNat]

/-- The number an integer is read as. -/
theorem JsonLib.value_ofInt (n : Int64) : ∃ v, lib.value (.number (.ofInt n.toInt)) = some v ∧
    v.asI64 = some n := by
  cases hn : n.toInt with
  | ofNat m =>
    have hlt : (m : ℤ) < 2 ^ 63 := by
      rw [← Int.ofNat_eq_natCast, ← hn]
      exact n.toInt_lt
    have hm : m < 2 ^ 63 := by omega
    refine ⟨_, lib.value_natJson (n := m) (by omega), ?_⟩
    have hnat : (UInt64.ofNat m).toNat = m := by
      rw [UInt64.toNat_ofNat']
      exact Nat.mod_eq_of_lt (by omega)
    rw [Value.asI64, hnat, if_pos hm]
    congr 1
    rw [← Int64.ofInt_toInt n, hn]
    rfl
  | negSucc m =>
    have hheld : (Number.negInt n).Held lib := by
      show n.toInt < 0
      rw [hn]
      exact Int.negSucc_lt_zero m
    refine ⟨.number (.negInt n), ?_, rfl⟩
    have hjson := JsonLib.number_json hheld
    rwa [Number.json, hn] at hjson

@[simp] theorem JsonLib.readI64_ofInt (n : Int64) :
    lib.readI64 (.number (.ofInt n.toInt)) = some n := by
  obtain ⟨v, hv, hread⟩ := lib.value_ofInt n
  rw [readI64, hv, Option.bind_some, hread]

end Values

@[simp] theorem readTicker_string (t : Ticker) : readTicker (.string t.str) = some t := rfl

@[simp] theorem readString_string (s : String) : readString (.string s) = some s := rfl

@[simp] theorem readSide_json (s : Side) : readSide s.json = some s := by
  cases s <;> rfl

@[simp] theorem readBookSide_json (b : BookSide) : readBookSide b.json = some b := by
  cases b <;> rfl

@[simp] theorem readReason_json (r : GapReason) : readReason r.json = some r := by
  cases r <;> rfl

@[simp] theorem Serde.time_timeJson (serde : Serde) (t : Timestamp) :
    serde.time (serde.timeJson t) = some t := serde.readTime_timeText t

section Fields

variable {α : Type} (read : Json → Option α)

@[simp] theorem readOption_none : readOption read none = some none := rfl

@[simp] theorem readOption_string (s : String) :
    readOption read (some (.string s)) = (read (.string s)).map some := rfl

@[simp] theorem readOption_number (n : JsonNumber) :
    readOption read (some (.number n)) = (read (.number n)).map some := rfl

@[simp] theorem readOption_natJson (n : ℕ) :
    readOption read (some (natJson n)) = (read (natJson n)).map some := rfl

@[simp] theorem readOption_bookSide (b : BookSide) :
    readOption read (some b.json) = (read b.json).map some := by
  cases b <;> rfl

end Fields

/-- Elements that are read back make an array that is read back. -/
theorem readArray_map {α : Type} {read : Json → Option α} {json : α → Json}
    (h : ∀ x, read (json x) = some x) (xs : List α) :
    readArray read (.array (xs.map json)) = some xs := by
  rw [readArray]
  induction xs with
  | nil => rfl
  | cons x xs ih =>
    rw [List.map_cons, List.mapM_cons, h, ih]
    rfl

@[simp] theorem JsonLib.readPriceLevel_json (lib : JsonLib) (l : PriceLevel) :
    lib.readPriceLevel l.json = some l := by
  simp [readPriceLevel, PriceLevel.json, recordFields, required, List.lookup_cons]

@[simp] theorem Serde.readSnapshot_json (serde : Serde) (s : OrderbookSnapshot) :
    serde.readSnapshot (serde.snapshotJson s) = some s := by
  have hlevels := readArray_map (JsonLib.readPriceLevel_json serde.toJsonLib)
  simp [readSnapshot, snapshotJson, recordFields, required, List.lookup_cons, hlevels]

@[simp] theorem Serde.readDelta_json (serde : Serde) (d : OrderbookDelta) :
    serde.readDelta (serde.deltaJson d) = some d := by
  simp [readDelta, deltaJson, recordFields, required, List.lookup_cons]

@[simp] theorem Serde.readTrade_json (serde : Serde) (t : Trade) :
    serde.readTrade (serde.tradeJson t) = some t := by
  obtain ⟨ticker, ts, price, count, takerSide, takerBookSide, tradeId⟩ := t
  cases takerBookSide
  all_goals
    cases tradeId
    all_goals
      simp [readTrade, tradeJson, recordFields, required, optional, optMember, List.lookup_cons]

@[simp] theorem JsonLib.readGapMarker_json (lib : JsonLib) (g : GapMarker) :
    lib.readGapMarker g.json = some g := by
  obtain ⟨reason, ticker, channel, lastSeq, observedSeq, detail⟩ := g
  cases lastSeq
  all_goals
    cases observedSeq
    all_goals simp [readGapMarker, GapMarker.json, recordFields, required, optional, optMember,
      List.lookup_cons]

theorem JsonLib.readRawFallback_json {lib : JsonLib} {r : RawFallback} (h : r.payload.Held lib) :
    lib.readRawFallback r.json = some r := by
  obtain ⟨rawType, ticker, error, payload⟩ := r
  have hpayload := JsonLib.value_json payload h
  cases rawType
  all_goals
    cases ticker
    all_goals simp [readRawFallback, RawFallback.json, recordFields, required, optional, optMember,
      List.lookup_cons, hpayload]

/-! ### Envelopes -/

/-- The payload of a raw record is a value of the library; the other records are all writable. -/
def RecordKind.Held (lib : JsonLib) : RecordKind → Prop
  | .raw r => r.payload.Held lib
  | _ => True

variable {serde : Serde}

/-- The library holds the value of a document. -/
def JsonLib.Holds (lib : JsonLib) (v : Json) : Prop := (lib.value v).isSome

section Holds

variable {lib : JsonLib}

theorem JsonLib.holds_string (s : String) : lib.Holds (.string s) := rfl

theorem JsonLib.holds_natJson {n : ℕ} (h : n < 2 ^ 64) : lib.Holds (natJson n) := by
  rw [Holds, lib.value_natJson h]
  rfl

theorem JsonLib.holds_ofInt (n : Int64) : lib.Holds (.number (.ofInt n.toInt)) := by
  obtain ⟨v, hv, -⟩ := lib.value_ofInt n
  rw [Holds, hv]
  rfl

theorem JsonLib.holds_json {v : Value} (h : v.Held lib) : lib.Holds v.json := by
  rw [Holds, JsonLib.value_json v h]
  rfl

theorem JsonLib.holds_array {xs : List Json} (h : ∀ x ∈ xs, lib.Holds x) :
    lib.Holds (.array xs) := by
  suffices (lib.elements xs).isSome by
    rw [Holds, value, Option.isSome_map]
    exact this
  induction xs with
  | nil => rfl
  | cons x xs ih =>
    rw [List.forall_mem_cons] at h
    obtain ⟨v, hv⟩ := Option.isSome_iff_exists.1 h.1
    obtain ⟨vs, hvs⟩ := Option.isSome_iff_exists.1 (ih h.2)
    rw [elements, hv, hvs]
    rfl

theorem JsonLib.holds_object {members : List (String × Json)}
    (h : ∀ m ∈ members, lib.Holds m.2) : lib.Holds (.object members) := by
  suffices (lib.fields members).isSome by
    rw [Holds, value, Option.isSome_map]
    exact this
  induction members with
  | nil => rfl
  | cons m members ih =>
    rw [List.forall_mem_cons] at h
    obtain ⟨v, hv⟩ := Option.isSome_iff_exists.1 h.1
    obtain ⟨vs, hvs⟩ := Option.isSome_iff_exists.1 (ih h.2)
    rw [fields, hv, hvs]
    rfl

theorem JsonLib.holds_optMember {key : String} {v : Option Json} (h : ∀ x ∈ v, lib.Holds x) :
    ∀ m ∈ optMember key v, lib.Holds m.2 := by
  intro m hm
  obtain ⟨x, hx, rfl⟩ := List.mem_map.1 hm
  exact h x (Option.mem_toList.1 hx)

theorem JsonLib.holds_levels (levels : List PriceLevel) :
    lib.Holds (.array (levels.map PriceLevel.json)) := by
  apply holds_array
  intro x hx
  obtain ⟨l, -, rfl⟩ := List.mem_map.1 hx
  have hprice : l.price.micro.toNat < 2 ^ 32 := l.price.micro.toNat_lt
  apply holds_object
  simp only [List.forall_mem_cons]
  exact ⟨holds_natJson (by omega), holds_natJson l.quantity.centi.toNat_lt, by simp⟩

theorem JsonLib.holds_snapshotJson (serde : Serde) (s : OrderbookSnapshot) :
    serde.Holds (serde.snapshotJson s) := by
  apply holds_object
  simp only [List.forall_mem_cons]
  exact ⟨holds_string _, holds_string _, holds_levels _, holds_levels _, by simp⟩

theorem JsonLib.holds_kindJson {serde : Serde} {kind : RecordKind}
    (h : kind.Held serde.toJsonLib) : serde.Holds (serde.kindJson kind).2 := by
  cases kind with
  | snapshot s => exact holds_snapshotJson serde s
  | delta d =>
    have hprice : d.price.micro.toNat < 2 ^ 32 := d.price.micro.toNat_lt
    have hside : serde.Holds d.side.json := by cases d.side <;> exact holds_string _
    apply holds_object
    simp only [List.forall_mem_cons]
    exact ⟨holds_string _, holds_string _, hside, holds_natJson (by omega), holds_ofInt _, by simp⟩
  | trade t =>
    have hprice : t.price.micro.toNat < 2 ^ 32 := t.price.micro.toNat_lt
    have hside : serde.Holds t.takerSide.json := by cases t.takerSide <;> exact holds_string _
    have hbook (b : BookSide) : serde.Holds b.json := by cases b <;> exact holds_string _
    apply holds_object
    simp only [List.forall_mem_append, List.forall_mem_cons]
    refine ⟨⟨⟨holds_string _, holds_string _, holds_natJson (by omega),
      holds_natJson t.count.centi.toNat_lt, hside, by simp⟩, holds_optMember ?_⟩,
      holds_optMember ?_⟩
    · simpa using fun b _ => hbook b
    · simpa using fun id _ => holds_string id
  | gap g =>
    have hreason : serde.Holds g.reason.json := by cases g.reason <;> exact holds_string _
    have hseq (n : UInt64) : serde.Holds (natJson n.toNat) := holds_natJson n.toNat_lt
    apply holds_object
    simp only [List.forall_mem_append, List.forall_mem_cons]
    refine ⟨⟨⟨⟨hreason, holds_string _, holds_string _, by simp⟩, holds_optMember ?_⟩,
      holds_optMember ?_⟩, holds_string _, by simp⟩
    · simpa using fun n _ => hseq n
    · simpa using fun n _ => hseq n
  | raw r =>
    apply holds_object
    simp only [List.forall_mem_append, List.forall_mem_cons]
    refine ⟨⟨holds_optMember ?_, holds_optMember ?_⟩, holds_string _, holds_json h, by simp⟩
    · simpa using fun s _ => holds_string s
    · simpa using fun t _ => holds_string t.str
  | verify s => exact holds_snapshotJson serde s

end Holds

/-- The body of a record is read back under its tag. -/
theorem Serde.kinds_kindJson {kind : RecordKind} (h : kind.Held serde.toJsonLib) :
    ∃ read, unitVariant serde.kinds (.string (serde.kindJson kind).1) = some read ∧
      read (serde.kindJson kind).2 = some kind := by
  cases kind with
  | snapshot s => exact ⟨_, rfl, by simp [kindJson]⟩
  | delta d => exact ⟨_, rfl, by simp [kindJson]⟩
  | trade t => exact ⟨_, rfl, by simp [kindJson]⟩
  | gap g => exact ⟨_, rfl, by simp [kindJson]⟩
  | raw r => exact ⟨_, rfl, by simp [kindJson, JsonLib.readRawFallback_json h]⟩
  | verify s => exact ⟨_, rfl, by simp [kindJson]⟩

theorem Serde.holds_envelopeMembers {env : Envelope} (h : env.kind.Held serde.toJsonLib) :
    ∀ m ∈ serde.envelopeMembers env, serde.Holds m.2 := by
  simp only [envelopeMembers, List.forall_mem_append, List.forall_mem_cons]
  refine ⟨JsonLib.holds_string _, ⟨JsonLib.holds_optMember ?_, JsonLib.holds_optMember ?_⟩,
    JsonLib.holds_string _, JsonLib.holds_kindJson h, by simp⟩
  · simpa using fun n _ => JsonLib.holds_natJson (UInt64.toNat_lt n)
  · simpa using fun n _ => JsonLib.holds_ofInt n

theorem Serde.nodup_envelopeMembers (env : Envelope) :
    ("v" :: (serde.envelopeMembers env).map (·.1)).Nodup := by
  obtain ⟨v, recvTs, seq, sid, kind⟩ := env
  cases seq
  all_goals
    cases sid
    all_goals simp [envelopeMembers, optMember]

theorem Serde.readEnvelope_envelopeJson {env : Envelope} (h : env.kind.Held serde.toJsonLib) :
    serde.readEnvelope (serde.envelopeJson env) = some env := by
  have hv : env.v.toNat < 2 ^ 16 := env.v.toNat_lt
  have hholds : ∀ m ∈ ("v", natJson env.v.toNat) :: serde.envelopeMembers env, serde.Holds m.2 :=
    List.forall_mem_cons.2 ⟨JsonLib.holds_natJson (by omega), Serde.holds_envelopeMembers h⟩
  rw [envelopeJson, readEnvelope, if_pos]
  · obtain ⟨v, recvTs, seq, sid, kind⟩ := env
    obtain ⟨read, htag, hread⟩ := Serde.kinds_kindJson h
    cases seq
    all_goals
      cases sid
      all_goals simp [envelopeMembers, required, optional, optMember, List.lookup_cons, htag, hread]
  · refine ⟨List.all_eq_true.2 hholds, fun key _ => ?_⟩
    exact List.nodup_iff_count.1 (Serde.nodup_envelopeMembers env) key

/-! ### Nesting -/

/-- The payload of a raw record stands two levels deep in its line, and the line can still be read.
-/
def RecordKind.Shallow : RecordKind → Prop
  | .raw r => r.payload.depth + 2 ≤ nestingLimit
  | _ => True

instance RecordKind.decidableShallow : DecidablePred RecordKind.Shallow
  | .raw r => inferInstanceAs (Decidable (r.payload.depth + 2 ≤ nestingLimit))
  | .snapshot _ | .delta _ | .trade _ | .gap _ | .verify _ => inferInstanceAs (Decidable True)

section Nesting

theorem depthMembers_append (members members' : List (String × Json)) :
    Json.depthMembers (members ++ members') =
      max (Json.depthMembers members) (Json.depthMembers members') := by
  induction members with
  | nil => exact (Nat.zero_max _).symm
  | cons m members ih =>
    obtain ⟨k, v⟩ := m
    rw [List.cons_append, Json.depthMembers, Json.depthMembers, ih, max_assoc]

theorem depth_natJson (n : ℕ) : (natJson n).depth = 0 := rfl

theorem depthMembers_optMember {α : Type} (key : String) (json : α → Json)
    (hjson : ∀ x, (json x).depth = 0) (v : Option α) :
    Json.depthMembers (optMember key (v.map json)) = 0 := by
  cases v with
  | none => rfl
  | some x =>
    show max (json x).depth 0 = 0
    rw [hjson, Nat.max_zero]

theorem depth_levels (levels : List PriceLevel) :
    Json.depthElements (levels.map PriceLevel.json) ≤ 1 := by
  induction levels with
  | nil => exact Nat.zero_le _
  | cons l levels ih =>
    rw [List.map_cons, Json.depthElements]
    exact max_le (le_of_eq rfl) ih

theorem Serde.depth_snapshotJson (s : OrderbookSnapshot) : (serde.snapshotJson s).depth ≤ 3 := by
  have hyes := depth_levels s.yes
  have hno := depth_levels s.no
  simp only [snapshotJson, timeJson, Json.depth, Json.depthMembers]
  omega

theorem RawFallback.depth_json (r : RawFallback) : r.json.depth = r.payload.depth + 1 := by
  have hrawType := depthMembers_optMember "raw_type" Json.string (fun _ => rfl) r.rawType
  have hticker := depthMembers_optMember "ticker" (fun t : Ticker => .string t.str) (fun _ => rfl)
    r.ticker
  simp only [json, Json.depth, depthMembers_append, hrawType, hticker, Json.depthMembers,
    Value.depth_json]
  omega

/-- The bodies of the other records are nested as little as they look. -/
theorem Serde.depth_kindJson (kind : RecordKind) :
    (serde.kindJson kind).2.depth + 1 ≤ nestingLimit ↔ kind.Shallow := by
  have hlimit : nestingLimit = 127 := rfl
  cases kind with
  | snapshot s | verify s =>
    have hdepth := serde.depth_snapshotJson s
    refine iff_of_true ?_ trivial
    show (serde.snapshotJson s).depth + 1 ≤ nestingLimit
    omega
  | delta d =>
    have hside : d.side.json.depth = 0 := by cases d.side <;> rfl
    refine iff_of_true ?_ trivial
    simp only [kindJson, deltaJson, timeJson, depth_natJson, Json.depth, Json.depthMembers, hside]
    omega
  | trade t =>
    have hside : t.takerSide.json.depth = 0 := by cases t.takerSide <;> rfl
    have hbook := depthMembers_optMember "taker_book_side" BookSide.json
      (fun b => by cases b <;> rfl) t.takerBookSide
    have hid := depthMembers_optMember "trade_id" Json.string (fun _ => rfl) t.tradeId
    refine iff_of_true ?_ trivial
    simp only [kindJson, tradeJson, timeJson, depth_natJson, Json.depth, depthMembers_append, hbook,
      hid, Json.depthMembers, hside]
    omega
  | gap g =>
    have hreason : g.reason.json.depth = 0 := by cases g.reason <;> rfl
    have hlast := depthMembers_optMember "last_seq" (fun n : UInt64 => natJson n.toNat)
      (fun _ => rfl) g.lastSeq
    have hobserved := depthMembers_optMember "observed_seq" (fun n : UInt64 => natJson n.toNat)
      (fun _ => rfl) g.observedSeq
    refine iff_of_true ?_ trivial
    simp only [kindJson, GapMarker.json, Json.depth, depthMembers_append, hlast, hobserved,
      Json.depthMembers, hreason]
    omega
  | raw r =>
    rw [kindJson, RecordKind.Shallow, RawFallback.depth_json]

/-- The line of an envelope is within the limit of the reader unless it carries a payload that is
nested too deep. -/
theorem Serde.depth_envelopeJson (env : Envelope) :
    (serde.envelopeJson env).depth ≤ nestingLimit ↔ env.kind.Shallow := by
  have hseq := depthMembers_optMember "seq" (fun n : UInt64 => natJson n.toNat) (fun _ => rfl)
    env.seq
  have hsid := depthMembers_optMember "sid" (fun n : Int64 => .number (.ofInt n.toInt))
    (fun _ => rfl) env.sid
  rw [← serde.depth_kindJson]
  simp only [envelopeJson, envelopeMembers, timeJson, depth_natJson, Json.depth,
    depthMembers_append, hseq, hsid, Json.depthMembers]
  omega

end Nesting

/-- An envelope is read back from its line, unless that is nested too deep. -/
theorem Serde.decode_lineText {env : Envelope} (h : env.kind.Held serde.toJsonLib) :
    serde.decode (String.ofList (serde.lineText env)) = if env.kind.Shallow then .ok env
      else .error (serde.lineError (String.ofList (serde.lineText env))) := by
  rw [decode, String.toList_ofList, lineText, Json.parseWithin_print]
  by_cases hshallow : env.kind.Shallow
  · rw [if_pos (depth_envelopeJson env |>.2 hshallow), if_pos hshallow, Option.bind_some,
      Serde.readEnvelope_envelopeJson h]
  · rw [if_neg (mt (depth_envelopeJson env).1 hshallow), if_neg hshallow]
    rfl

/-! ### A concrete library -/

/-- 2026-05-30T12:00:00Z. -/
def Timestamp.sample : Timestamp := { nanos := 1780142400 * 10 ^ 9 }

/-- A library for texts without floating-point numbers and with one instant: `Timestamp.sample` is
printed the way the calendar library prints it, any other as its nanoseconds. -/
def Serde.sample : Serde :=
  { JsonLib.integral with
    timeText := fun t => if t = .sample then "2026-05-30T12:00:00Z" else
      String.ofList (JsonNumber.ofInt t.nanos).chars
    readTime := fun s => if s = "2026-05-30T12:00:00Z" then some .sample else
      match Json.readNumber s.toList with
      | some (.number n) =>
        match n.read with
        | .natural v => if h : minUtcNanos ≤ v ∧ v ≤ maxUtcNanos then some ⟨v, h⟩ else none
        | .negated v => if h : minUtcNanos ≤ -v ∧ -v ≤ maxUtcNanos then some ⟨-v, h⟩ else none
        | .decimal => none
      | _ => none
    readTime_timeText := by
      intro t
      by_cases ht : t = .sample
      · rw [if_pos ht, if_pos rfl, ht]
      · have hne : String.ofList (JsonNumber.ofInt t.nanos).chars ≠ "2026-05-30T12:00:00Z" := by
          intro heq
          have hnumber := (JsonNumber.ofInt t.nanos).isNumber
          rw [← String.toList_ofList (l := (JsonNumber.ofInt t.nanos).chars), heq] at hnumber
          revert hnumber
          decide
        rw [if_neg ht, if_neg hne, String.toList_ofList, Json.readNumber_chars]
        obtain ⟨nanos, hrange⟩ := t
        cases nanos with
        | ofNat v =>
          rw [JsonNumber.ofInt]
          dsimp only
          rw [JsonNumber.read_ofNat]
          exact dif_pos hrange
        | negSucc v =>
          rw [JsonNumber.ofInt]
          dsimp only
          rw [JsonNumber.read_ofNeg]
          exact dif_pos hrange
    lineError := fun _ => "expected value"
    timeError := fun _ => "input contains invalid characters" }

end Snapevent
