import Snapevent.Core.Units
import Snapevent.Core.Value
import Snapevent.Kalshi.Session

/-!
# Decoding a text frame

The tolerant decoder of the WebSocket feed (`protocol.rs`): a text frame becomes a market-data
record, a control frame, a server error, or a fallback that keeps its content with the reason.
What each decoder accepts is stated beside it, as a relation between a message and its record.
-/

namespace Snapevent

/-- Prefix the message of a unit error with the field and its text. -/
def fieldError {α : Type} (field input : String) :
    Except FixedPointError α → Except String α
  | .ok v => .ok v
  | .error e => .error (field ++ " " ++ debugText input ++ ": " ++ e.message)

/-- An optional value, or an error. -/
def okOr {α : Type} (error : String) : Option α → Except String α
  | some v => .ok v
  | none => .error error

/-! ## Fields -/

/-- A required string field. -/
def strField (msg : Value) (key : String) : Except String String :=
  okOr ("missing string field " ++ debugText key) ((msg.get key).bind Value.asStr)

/-- The market of a message. -/
def tickerOf (msg : Value) : Except String Ticker := Ticker.mk <$> strField msg "market_ticker"

/-- The debug text of an optional string. -/
def debugOption : Option String → String
  | none => "None"
  | some s => "Some(" ++ debugText s ++ ")"

/-- A yes or no side. -/
def sideOf (value : Option Value) : Except String Side :=
  let s := value.bind Value.asStr
  if s = some "yes" then .ok .yes
  else if s = some "no" then .ok .no
  else .error ("invalid side " ++ debugOption s)

/-- The side of the book a taker hit, when it is reported. -/
def takerBookSideOf (value : Option Value) : Except String (Option BookSide) :=
  match value with
  | none => .ok none
  | some .null => .ok none
  | some (.string s) =>
    if s = "bid" then .ok (some .bid)
    else if s = "ask" then .ok (some .ask)
    else .error ("unknown taker_book_side " ++ (Value.string s).text)
  | some other => .error ("unknown taker_book_side " ++ other.text)

/-- The instant at `ms` milliseconds, when the calendar reaches that far. -/
def fromTimestampMillis (ms : Int64) : Option Timestamp :=
  Timestamp.fromTimestampMicros (ms.toInt * 1000)

/-- The exchange time of a message, or the time it was received. -/
def wireTs (msg : Value) (recvTs : Timestamp) : Timestamp :=
  (((msg.get "ts_ms").bind Value.asI64).bind fromTimestampMillis).getD recvTs

/-! ## Book levels -/

/-- One level: a price and a size. -/
def decodeWsLevel (level : Value) : Except String PriceLevel := do
  let pair ← okOr "level is not an array" level.asArray
  let priceS ← okOr "level price not a string" (pair.head?.bind Value.asStr)
  let sizeS ← okOr "level size not a string" (pair[1]?.bind Value.asStr)
  let price ← fieldError "level price" priceS (MicroDollars.parse priceS)
  let quantity ← fieldError "level size" sizeS (RestingQty.parse sizeS)
  return { price, quantity }

/-- The levels of one book side; an absent or null side is empty. -/
def decodeLevels (value : Option Value) : Except String (List PriceLevel) :=
  match value with
  | none => .ok []
  | some .null => .ok []
  | some present => do (← okOr "non-array levels" present.asArray).mapM decodeWsLevel

/-! ## Messages -/

/-- A snapshot message; its record is stamped with the receive time. -/
def decodeSnapshot (msg : Value) (recvTs : Timestamp) : Except String (Ticker × RecordKind) := do
  let ticker ← tickerOf msg
  let yes ← decodeLevels (msg.get "yes_dollars_fp")
  let no ← decodeLevels (msg.get "no_dollars_fp")
  return (ticker, .snapshot { ticker, ts := recvTs, yes, no })

/-- A delta message. -/
def decodeDelta (msg : Value) (recvTs : Timestamp) : Except String (Ticker × RecordKind) := do
  let ticker ← tickerOf msg
  let side ← sideOf (msg.get "side")
  let priceS ← strField msg "price_dollars"
  let price ← fieldError "price_dollars" priceS (MicroDollars.parse priceS)
  let deltaS ← strField msg "delta_fp"
  let delta ← fieldError "delta_fp" deltaS (QtyDelta.parse deltaS)
  return (ticker, .delta { ticker, ts := wireTs msg recvTs, side, price, delta })

/-- A trade message. -/
def decodeTrade (msg : Value) (recvTs : Timestamp) : Except String (Ticker × RecordKind) := do
  let ticker ← tickerOf msg
  let priceS ← strField msg "yes_price_dollars"
  let price ← fieldError "yes_price_dollars" priceS (MicroDollars.parse priceS)
  let countS ← strField msg "count_fp"
  let count ← fieldError "count_fp" countS (RestingQty.parse countS)
  let takerSide ← sideOf (msg.get "taker_outcome_side")
  let takerBookSide ← takerBookSideOf (msg.get "taker_book_side")
  let tradeId := (msg.get "trade_id").bind Value.asStr
  return (ticker, .trade { ticker, ts := wireTs msg recvTs, price, count, takerSide, takerBookSide
                           tradeId })

/-! ## Frames -/

/-- A fallback with its routing hints. -/
def rawOutcome (rawType : Option String) (channel : Option Channel) (ticker : Option Ticker)
    (error : String) (payload : Value) : FrameOutcome :=
  .raw channel ticker { rawType, ticker, error, payload }

/-- Decode the message of a data frame; what cannot be decoded is kept. -/
def decodeData (channel : Channel) (rawType : String) (msg : Option Value)
    (decode : Value → Except String (Ticker × RecordKind)) : FrameOutcome :=
  match msg with
  | none => rawOutcome (some rawType) (some channel) none "frame missing 'msg' object" .null
  | some msg =>
    match decode msg with
    | .ok (ticker, record) => .data channel ticker record
    | .error error =>
      let ticker := ((msg.get "market_ticker").bind Value.asStr).map Ticker.mk
      rawOutcome (some rawType) (some channel) ticker error msg

/-- The type of a frame. -/
def msgType (value : Value) : Option String := (value.get "type").bind Value.asStr

/-- The detail of an error frame. -/
def errorDetail (value : Value) : String :=
  match value.get "msg" with
  | some m => ((m.get "msg").bind Value.asStr).getD m.text
  | none => value.text

/-- Classify a frame that is JSON. -/
def decodeValue (value : Value) (recvTs : Timestamp) : FrameOutcome :=
  let msg := value.get "msg"
  match msgType value with
  | none => rawOutcome none none none "frame missing string 'type'" value
  | some t =>
    if t = "orderbook_snapshot" then
      decodeData .orderbook "orderbook_snapshot" msg (decodeSnapshot · recvTs)
    else if t = "orderbook_delta" then
      decodeData .orderbook "orderbook_delta" msg (decodeDelta · recvTs)
    else if t = "trade" then decodeData .trade "trade" msg (decodeTrade · recvTs)
    else if t = "subscribed" ∨ t = "ok" then .control t
    else if t = "error" then .serverError (errorDetail value)
    else rawOutcome (some t) none none ("unknown frame type " ++ debugText t) (msg.getD value)

/-- Decode a text frame. -/
def decodeFrame (lib : JsonLib) (text : String) (recvTs : Timestamp) : DecodedFrame :=
  match lib.parse text with
  | .error e =>
    ⟨none, none, rawOutcome none none none ("invalid JSON frame: " ++ e) (.string text)⟩
  | .ok value =>
    ⟨(value.get "sid").bind Value.asI64, (value.get "seq").bind Value.asU64,
      decodeValue value recvTs⟩

end Snapevent
