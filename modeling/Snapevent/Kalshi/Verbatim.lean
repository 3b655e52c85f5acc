import Snapevent.Kalshi.Protocol

/-!
# What a frame keeps

A frame that cannot be decoded is to be kept with its content, and a data record is to hold only
what was read from its fields.  The decoder does so for every text, except that a data frame
without a message leaves nothing of itself but its type.
-/

namespace Snapevent

/-! ## What the fields are read as -/

/-- A level as it stands in a message. -/
def ReadsLevel (level : Value) (l : PriceLevel) : Prop :=
  ∃ p q rest, level = .array (.string p :: .string q :: rest) ∧
    MicroDollars.parse p = .ok l.price ∧ RestingQty.parse q = .ok l.quantity

/-- The levels of a book side as they stand in a message: all of them, or none when the side is
absent or null. -/
inductive ReadsSide : Option Value → List PriceLevel → Prop
  | absent : ReadsSide none []
  | null : ReadsSide (some .null) []
  | levels {xs levels} : List.Forall₂ ReadsLevel xs levels → ReadsSide (some (.array xs)) levels

/-- The outcome side a field names. -/
inductive ReadsOutcome : Option Value → Side → Prop
  | yes : ReadsOutcome (some (.string "yes")) .yes
  | no : ReadsOutcome (some (.string "no")) .no

/-- The book side a field names, when it names one. -/
inductive ReadsBookSide : Option Value → Option BookSide → Prop
  | absent : ReadsBookSide none none
  | null : ReadsBookSide (some .null) none
  | bid : ReadsBookSide (some (.string "bid")) (some .bid)
  | ask : ReadsBookSide (some (.string "ask")) (some .ask)

/-- A field is a decimal text with this value. -/
def ReadsDecimal {α : Type} (parse : String → Except FixedPointError α) (msg : Value)
    (key : String) (v : α) : Prop :=
  ∃ s, msg.get key = some (.string s) ∧ parse s = .ok v

/-- The record a data message of each type stands for, with its channel and market: every required
field has been read from the message. -/
inductive Reads (msg : Value) (recvTs : Timestamp) : String → Channel → Ticker → RecordKind → Prop
  | snapshot {ticker yes no} : msg.get "market_ticker" = some (.string ticker) →
      ReadsSide (msg.get "yes_dollars_fp") yes → ReadsSide (msg.get "no_dollars_fp") no →
      Reads msg recvTs "orderbook_snapshot" .orderbook ⟨ticker⟩
        (.snapshot { ticker := ⟨ticker⟩, ts := recvTs, yes, no })
  | delta {ticker side price delta} : msg.get "market_ticker" = some (.string ticker) →
      ReadsOutcome (msg.get "side") side →
      ReadsDecimal MicroDollars.parse msg "price_dollars" price →
      ReadsDecimal QtyDelta.parse msg "delta_fp" delta →
      Reads msg recvTs "orderbook_delta" .orderbook ⟨ticker⟩
        (.delta { ticker := ⟨ticker⟩, ts := wireTs msg recvTs, side, price, delta })
  | trade {ticker price count takerSide takerBookSide} :
      msg.get "market_ticker" = some (.string ticker) →
      ReadsDecimal MicroDollars.parse msg "yes_price_dollars" price →
      ReadsDecimal RestingQty.parse msg "count_fp" count →
      ReadsOutcome (msg.get "taker_outcome_side") takerSide →
      ReadsBookSide (msg.get "taker_book_side") takerBookSide →
      Reads msg recvTs "trade" .trade ⟨ticker⟩
        (.trade { ticker := ⟨ticker⟩, ts := wireTs msg recvTs, price, count, takerSide
                  takerBookSide, tradeId := (msg.get "trade_id").bind Value.asStr })

/-! ## What the decoders accept -/

section Fields

variable {msg value : Value} {key : String}

theorem asStr_eq_some {s : String} : value.asStr = some s ↔ value = .string s := by
  cases value <;> simp [Value.asStr]

theorem asArray_eq_some {xs : List Value} : value.asArray = some xs ↔ value = .array xs := by
  cases value <;> simp [Value.asArray]

theorem okOr_eq_ok {α : Type} {error : String} {x : Option α} {v : α} :
    okOr error x = .ok v ↔ x = some v := by
  cases x <;> simp [okOr]

theorem fieldError_eq_ok {α : Type} {field input : String} {x : Except FixedPointError α} {v : α} :
    fieldError field input x = .ok v ↔ x = .ok v := by
  cases x <;> simp [fieldError]

theorem bind_asStr_eq_some {v : Option Value} {s : String} :
    v.bind Value.asStr = some s ↔ v = some (.string s) := by
  rw [Option.bind_eq_some_iff]
  constructor
  · rintro ⟨x, hx, hs⟩
    rw [hx, asStr_eq_some.1 hs]
  · intro h
    exact ⟨_, h, rfl⟩

theorem strField_eq_ok {s : String} : strField msg key = .ok s ↔ msg.get key = some (.string s) := by
  rw [strField, okOr_eq_ok, bind_asStr_eq_some]

theorem tickerOf_ok {ticker : Ticker} (h : tickerOf msg = .ok ticker) :
    msg.get "market_ticker" = some (.string ticker.str) := by
  rw [tickerOf] at h
  cases hs : strField msg "market_ticker" with
  | error e => rw [hs] at h; cases h
  | ok s =>
    rw [hs] at h
    cases h
    exact strField_eq_ok.1 hs

theorem sideOf_ok {v : Option Value} {side : Side} (h : sideOf v = .ok side) :
    ReadsOutcome v side := by
  unfold sideOf at h
  dsimp only at h
  split_ifs at h with hyes hno
  · cases h
    rw [bind_asStr_eq_some.1 hyes]
    exact .yes
  · cases h
    rw [bind_asStr_eq_some.1 hno]
    exact .no

theorem takerBookSideOf_ok {v : Option Value} {side : Option BookSide}
    (h : takerBookSideOf v = .ok side) : ReadsBookSide v side := by
  unfold takerBookSideOf at h
  split at h
  · cases h
    exact .absent
  · cases h
    exact .null
  · split_ifs at h with hbid hask
    · cases h
      rw [hbid]
      exact .bid
    · cases h
      rw [hask]
      exact .ask
  · cases h

theorem decimal_ok {α : Type} {parse : String → Except FixedPointError α} {field s : String} {v : α}
    (hs : strField msg key = .ok s) (h : fieldError field s (parse s) = .ok v) :
    ReadsDecimal parse msg key v :=
  ⟨s, strField_eq_ok.1 hs, fieldError_eq_ok.1 h⟩

end Fields

theorem decodeWsLevel_eq_ok {level : Value} {l : PriceLevel} :
    decodeWsLevel level = .ok l ↔ ReadsLevel level l := by
  constructor
  · intro h
    obtain ⟨pair, hpair, h⟩ := FoldM.bind_ok h
    obtain ⟨p, hp, h⟩ := FoldM.bind_ok h
    obtain ⟨q, hq, h⟩ := FoldM.bind_ok h
    obtain ⟨price, hprice, h⟩ := FoldM.bind_ok h
    obtain ⟨quantity, hquantity, h⟩ := FoldM.bind_ok h
    cases h
    rw [okOr_eq_ok, asArray_eq_some] at hpair
    rw [okOr_eq_ok, bind_asStr_eq_some] at hp hq
    match pair, hp, hq with
    | x :: y :: rest, hp, hq =>
      cases hp
      cases hq
      exact ⟨p, q, rest, hpair, fieldError_eq_ok.1 hprice, fieldError_eq_ok.1 hquantity⟩
  · rintro ⟨p, q, rest, rfl, hp, hq⟩
    show (fieldError "level price" p (MicroDollars.parse p) >>= fun price =>
      fieldError "level size" q (RestingQty.parse q) >>= fun quantity =>
        pure (⟨price, quantity⟩ : PriceLevel)) = .ok l
    rw [fieldError_eq_ok.2 hp, fieldError_eq_ok.2 hq]
    rfl

theorem decodeLevels_eq_ok {v : Option Value} {levels : List PriceLevel} :
    decodeLevels v = .ok levels ↔ ReadsSide v levels := by
  constructor
  · intro h
    unfold decodeLevels at h
    split at h
    · cases h
      exact .absent
    · cases h
      exact .null
    · obtain ⟨xs, hxs, h⟩ := FoldM.bind_ok h
      rw [okOr_eq_ok, asArray_eq_some] at hxs
      rw [hxs]
      exact .levels ((FoldM.mapM_ok_iff fun _ _ => decodeWsLevel_eq_ok).1 h)
  · intro h
    cases h with
    | absent => rfl
    | null => rfl
    | levels h => exact (FoldM.mapM_ok_iff fun _ _ => decodeWsLevel_eq_ok).2 h

section Messages

variable {msg : Value} {recvTs : Timestamp} {ticker : Ticker} {record : RecordKind}

theorem decodeSnapshot_ok (h : decodeSnapshot msg recvTs = .ok (ticker, record)) :
    Reads msg recvTs "orderbook_snapshot" .orderbook ticker record := by
  obtain ⟨t, ht, h⟩ := FoldM.bind_ok h
  obtain ⟨yes, hyes, h⟩ := FoldM.bind_ok h
  obtain ⟨no, hno, h⟩ := FoldM.bind_ok h
  cases h
  exact .snapshot (tickerOf_ok ht) (decodeLevels_eq_ok.1 hyes) (decodeLevels_eq_ok.1 hno)

theorem decodeDelta_ok (h : decodeDelta msg recvTs = .ok (ticker, record)) :
    Reads msg recvTs "orderbook_delta" .orderbook ticker record := by
  obtain ⟨t, ht, h⟩ := FoldM.bind_ok h
  obtain ⟨side, hside, h⟩ := FoldM.bind_ok h
  obtain ⟨p, hp, h⟩ := FoldM.bind_ok h
  obtain ⟨price, hprice, h⟩ := FoldM.bind_ok h
  obtain ⟨d, hd, h⟩ := FoldM.bind_ok h
  obtain ⟨delta, hdelta, h⟩ := FoldM.bind_ok h
  cases h
  exact .delta (tickerOf_ok ht) (sideOf_ok hside) (decimal_ok hp hprice) (decimal_ok hd hdelta)

theorem decodeTrade_ok (h : decodeTrade msg recvTs = .ok (ticker, record)) :
    Reads msg recvTs "trade" .trade ticker record := by
  obtain ⟨t, ht, h⟩ := FoldM.bind_ok h
  obtain ⟨p, hp, h⟩ := FoldM.bind_ok h
  obtain ⟨price, hprice, h⟩ := FoldM.bind_ok h
  obtain ⟨c, hc, h⟩ := FoldM.bind_ok h
  obtain ⟨count, hcount, h⟩ := FoldM.bind_ok h
  obtain ⟨side, hside, h⟩ := FoldM.bind_ok h
  obtain ⟨bookSide, hbookSide, h⟩ := FoldM.bind_ok h
  cases h
  exact .trade (tickerOf_ok ht) (decimal_ok hp hprice) (decimal_ok hc hcount) (sideOf_ok hside)
    (takerBookSideOf_ok hbookSide)

end Messages

/-! ## What a frame is to keep -/

/-- The content of a text: the text itself when it is not JSON, the message of a typed frame that
has one, and the whole frame otherwise. -/
def content (lib : JsonLib) (text : String) : Value :=
  match lib.parse text with
  | .error _ => .string text
  | .ok value =>
    match msgType value, value.get "msg" with
    | some _, some msg => msg
    | _, _ => value

/-- The frame's outcome has lost nothing: a fallback keeps the content, and a data record has been
read from the frame's message. -/
def KeepsContent (value : Except String Value) (kept : Value) (recvTs : Timestamp) : FrameOutcome → Prop
  | .raw _ _ fallback => fallback.payload = kept
  | .data channel ticker record => ∃ v msg type, value = .ok v ∧ msgType v = some type ∧
      v.get "msg" = some msg ∧ Reads msg recvTs type channel ticker record
  | .control _ => True
  | .serverError _ => True

/-- The types of the data frames. -/
def DATA_TYPES : List String := ["orderbook_snapshot", "orderbook_delta", "trade"]

/-- The text is a data frame without a message. -/
def LacksMsg (lib : JsonLib) (text : String) : Prop :=
  ∃ value, lib.parse text = .ok value ∧ value.get "msg" = none ∧
    ∃ type ∈ DATA_TYPES, msgType value = some type

section Data

variable {value : Value} {type : String} {channel : Channel} {recvTs : Timestamp}
  {decode : Value → Except String (Ticker × RecordKind)}

/-- A data frame with a message keeps it, decoded or not. -/
theorem decodeData_keeps {msg : Value} (ht : msgType value = some type)
    (hmsg : value.get "msg" = some msg)
    (hdecode : ∀ ticker record, decode msg = .ok (ticker, record) →
      Reads msg recvTs type channel ticker record) :
    KeepsContent (.ok value) msg recvTs (decodeData channel type (value.get "msg") decode) := by
  rw [hmsg, decodeData]
  dsimp only
  cases hd : decode msg with
  | error e => exact rfl
  | ok r => exact ⟨value, msg, type, rfl, ht, hmsg, hdecode _ _ hd⟩

theorem decodeData_loses (hmsg : value.get "msg" = none) (ht : msgType value = some type) :
    ¬ KeepsContent (.ok value) value recvTs (decodeData channel type (value.get "msg") decode) := by
  rw [hmsg]
  intro h
  have hnull : Value.null = value := h
  rw [← hnull] at ht
  cases ht

end Data

theorem decodeValue_snapshot {value : Value} (ht : msgType value = some "orderbook_snapshot")
    (recvTs : Timestamp) : decodeValue value recvTs =
      decodeData .orderbook "orderbook_snapshot" (value.get "msg") (decodeSnapshot · recvTs) := by
  simp [decodeValue, ht]

theorem decodeValue_delta {value : Value} (ht : msgType value = some "orderbook_delta")
    (recvTs : Timestamp) : decodeValue value recvTs =
      decodeData .orderbook "orderbook_delta" (value.get "msg") (decodeDelta · recvTs) := by
  simp [decodeValue, ht]

theorem decodeValue_trade {value : Value} (ht : msgType value = some "trade")
    (recvTs : Timestamp) : decodeValue value recvTs =
      decodeData .trade "trade" (value.get "msg") (decodeTrade · recvTs) := by
  simp [decodeValue, ht]

/-- The decoder of each data type, with its channel. -/
theorem decodeValue_data {value : Value} {type : String} (htype : type ∈ DATA_TYPES)
    (ht : msgType value = some type) (recvTs : Timestamp) :
    ∃ channel decode,
      decodeValue value recvTs = decodeData channel type (value.get "msg") decode ∧
        ∀ msg ticker record, decode msg = .ok (ticker, record) →
          Reads msg recvTs type channel ticker record := by
  simp only [DATA_TYPES, List.mem_cons, List.not_mem_nil, or_false] at htype
  rcases htype with rfl | rfl | rfl
  · exact ⟨_, _, decodeValue_snapshot ht recvTs, fun _ _ _ h => decodeSnapshot_ok h⟩
  · exact ⟨_, _, decodeValue_delta ht recvTs, fun _ _ _ h => decodeDelta_ok h⟩
  · exact ⟨_, _, decodeValue_trade ht recvTs, fun _ _ _ h => decodeTrade_ok h⟩

/-- The frames that are not data keep their content in every case. -/
theorem decodeValue_other {value : Value} (ht : ∀ type ∈ DATA_TYPES, msgType value ≠ some type)
    (recvTs : Timestamp) :
    KeepsContent (.ok value)
      (match msgType value, value.get "msg" with | some _, some msg => msg | _, _ => value) recvTs
      (decodeValue value recvTs) := by
  unfold decodeValue
  cases htype : msgType value with
  | none => exact rfl
  | some type =>
    have hne (t : String) (h : t ∈ DATA_TYPES) : type ≠ t := by
      rintro rfl
      exact ht type h htype
    dsimp only
    rw [if_neg (hne _ (by decide)), if_neg (hne _ (by decide)), if_neg (hne _ (by decide))]
    split_ifs
    · trivial
    · trivial
    · cases value.get "msg" with
      | none => exact rfl
      | some msg => exact rfl

/-- A text frame loses nothing exactly when it is not a data frame without a message. -/
theorem decode_frame_keeps_iff (lib : JsonLib) (text : String) (recvTs : Timestamp) :
    KeepsContent (lib.parse text) (content lib text) recvTs (decodeFrame lib text recvTs).outcome ↔
      ¬ LacksMsg lib text := by
  unfold content decodeFrame LacksMsg
  cases hparse : lib.parse text with
  | error e => simp [KeepsContent, rawOutcome]
  | ok value =>
    dsimp only
    by_cases hdata : ∃ type ∈ DATA_TYPES, msgType value = some type
    · obtain ⟨type, htype, ht⟩ := hdata
      obtain ⟨channel, decode, hdecode, hreads⟩ := decodeValue_data htype ht recvTs
      rw [hdecode]
      cases hmsg : value.get "msg" with
      | none =>
        have hlost : ¬ KeepsContent (.ok value) value recvTs
            (decodeData channel type (value.get "msg") decode) := decodeData_loses hmsg ht
        rw [hmsg] at hlost
        simp only [ht]
        exact iff_of_false hlost fun h => h ⟨value, rfl, hmsg, type, htype, ht⟩
      | some msg =>
        have hkept := decodeData_keeps ht hmsg (hreads msg)
        rw [hmsg] at hkept
        simp only [ht]
        refine iff_of_true hkept ?_
        rintro ⟨v, hv, hnone, -⟩
        cases hv
        rw [hmsg] at hnone
        cases hnone
    · refine iff_of_true (decodeValue_other (fun type h h' => hdata ⟨type, h, h'⟩) recvTs) ?_
      rintro ⟨v, hv, -, h⟩
      cases hv
      exact hdata h

/-- A trade frame without a message. -/
def bareTradeFrame : Value :=
  .object [("seq", .number (.posInt 2)), ("sid", .number (.posInt 1)), ("type", .string "trade")]

/-- It is kept as a `null`. -/
theorem bare_trade_frame_lost :
    ¬ KeepsContent (JsonLib.integral.parse bareTradeFrame.text)
      (content JsonLib.integral bareTradeFrame.text) { nanos := 0 }
      (decodeFrame JsonLib.integral bareTradeFrame.text { nanos := 0 }).outcome := by
  have hheld : bareTradeFrame.Held JsonLib.integral := by
    refine ⟨?_, trivial, trivial, trivial, trivial⟩
    simp only [SortedMap.Sorted]
    decide
  rw [content, decodeFrame, JsonLib.parse_text hheld (by decide)]
  intro h
  have hpayload : Value.null = bareTradeFrame := h
  cases hpayload

end Snapevent
