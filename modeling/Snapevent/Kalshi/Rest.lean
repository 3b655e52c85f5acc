import Snapevent.Cli.Capture
import Snapevent.Kalshi.Verbatim

/-!
# The REST order book

The typed decoder of one book of a batch response (`rest.rs`).  It reads the same book sides as the
snapshot decoder of the WebSocket feed, except a null side and levels with more than two elements.
-/

namespace Snapevent

/-- The wire shape of a book: two arrays of price and count. -/
structure OrderbookCountFpWire where
  yesDollars : List (String × String)
  noDollars : List (String × String)

/-! ## The typed shape -/

/-- An array of exactly two strings. -/
def stringPair : Value → Option (String × String)
  | .array [.string p, .string q] => some (p, q)
  | _ => none

/-- An array of such pairs; a field that is absent is empty. -/
def wireLevels : Option Value → Option (List (String × String))
  | none => some []
  | some (.array xs) => xs.mapM stringPair
  | some _ => none

/-- Read a value as the wire shape: an object, or an array of the fields in their order. -/
def OrderbookCountFpWire.fromValue : Value → Option OrderbookCountFpWire
  | .object fields => do
    let yesDollars ← wireLevels (fields.lookup "yes_dollars")
    let noDollars ← wireLevels (fields.lookup "no_dollars")
    return { yesDollars, noDollars }
  | .array xs =>
    if xs.length ≤ 2 then do
      let yesDollars ← wireLevels xs[0]?
      let noDollars ← wireLevels xs[1]?
      return { yesDollars, noDollars }
    else none
  | _ => none

/-! ## Levels -/

namespace Rest

/-- One level: a price and a count. -/
def decodeLevel (raw : String × String) : Except String PriceLevel := do
  let price ← fieldError "price" raw.1 (MicroDollars.parse raw.1)
  let quantity ← fieldError "count" raw.2 (RestingQty.parse raw.2)
  return { price, quantity }

def decodeLevels (raw : List (String × String)) : Except String (List PriceLevel) :=
  raw.mapM decodeLevel

/-- Decode one entry of a batch response; `ticker` was read from the entry before. -/
def decodeBook (lib : JsonLib) (raw : Value) (ticker : Option String) : RestOrderbookOutcome :=
  let result : Except String RestOrderbookOutcome := do
    let ticker ← okOr "missing ticker" ticker
    let orderbookFp ← okOr "missing orderbook_fp" (raw.get "orderbook_fp")
    let wire ← okOr ("orderbook_fp: " ++ lib.typeError orderbookFp)
      (OrderbookCountFpWire.fromValue orderbookFp)
    let yes ← decodeLevels wire.yesDollars
    let no ← decodeLevels wire.noDollars
    return .book ticker yes no
  match result with
  | .ok outcome => outcome
  | .error error => .undecodable ticker error raw

end Rest

/-! ## One side, read twice -/

/-- The levels the snapshot decoder reads from a side. -/
def wsSide (side : Option Value) : Option (List PriceLevel) := (decodeLevels side).toOption

/-- The levels the REST decoder reads from a side. -/
def restSide (side : Option Value) : Option (List PriceLevel) :=
  (wireLevels side).bind fun pairs => (Rest.decodeLevels pairs).toOption

/-- A level of exactly two elements, as it stands in a message. -/
def ReadsPair (level : Value) (l : PriceLevel) : Prop :=
  ∃ p q, level = .array [.string p, .string q] ∧
    MicroDollars.parse p = .ok l.price ∧ RestingQty.parse q = .ok l.quantity

theorem ReadsPair.readsLevel {level : Value} {l : PriceLevel} (h : ReadsPair level l) :
    ReadsLevel level l := by
  obtain ⟨p, q, hlevel, hp, hq⟩ := h
  exact ⟨p, q, [], hlevel, hp, hq⟩

theorem toOption_eq_some {α ε : Type} {x : Except ε α} {v : α} :
    x.toOption = some v ↔ x = .ok v := by
  cases x <;> simp [Except.toOption]

theorem wsSide_eq_some {side : Option Value} {levels : List PriceLevel} :
    wsSide side = some levels ↔ ReadsSide side levels := by
  rw [wsSide, toOption_eq_some, decodeLevels_eq_ok]

theorem stringPair_eq_some {v : Value} {p : String × String} :
    stringPair v = some p ↔ v = .array [.string p.1, .string p.2] := by
  constructor
  · intro h
    unfold stringPair at h
    split at h
    · cases h
      rfl
    · cases h
  · rintro rfl
    rfl

theorem restLevel_eq_ok {raw : String × String} {l : PriceLevel} :
    Rest.decodeLevel raw = .ok l ↔
      MicroDollars.parse raw.1 = .ok l.price ∧ RestingQty.parse raw.2 = .ok l.quantity := by
  constructor
  · intro h
    obtain ⟨price, hprice, h⟩ := FoldM.bind_ok h
    obtain ⟨quantity, hquantity, h⟩ := FoldM.bind_ok h
    cases h
    exact ⟨fieldError_eq_ok.1 hprice, fieldError_eq_ok.1 hquantity⟩
  · rintro ⟨hp, hq⟩
    rw [Rest.decodeLevel, fieldError_eq_ok.2 hp, fieldError_eq_ok.2 hq]
    rfl

/-- The REST decoder accepts an array exactly when each of its levels is a pair that can be
read. -/
theorem restSide_array {xs : List Value} {levels : List PriceLevel} :
    restSide (some (.array xs)) = some levels ↔ List.Forall₂ ReadsPair xs levels := by
  show (xs.mapM stringPair).bind (fun pairs => (Rest.decodeLevels pairs).toOption) = _ ↔ _
  induction xs generalizing levels with
  | nil =>
    rw [List.forall₂_nil_left_iff]
    exact ⟨fun h => (Option.some.inj h).symm, fun h => by rw [h]; rfl⟩
  | cons x xs ih =>
    rw [List.mapM_cons]
    constructor
    · intro h
      obtain ⟨pairs, hpairs, h⟩ := Option.bind_eq_some_iff.1 h
      obtain ⟨pair, hpair, hpairs⟩ := Option.bind_eq_some_iff.1 hpairs
      obtain ⟨rest, hrest, hpairs⟩ := Option.bind_eq_some_iff.1 hpairs
      cases hpairs
      rw [toOption_eq_some, Rest.decodeLevels, List.mapM_cons] at h
      obtain ⟨l, hl, h⟩ := FoldM.bind_ok h
      obtain ⟨ls, hls, h⟩ := FoldM.bind_ok h
      cases h
      refine .cons ⟨pair.1, pair.2, stringPair_eq_some.1 hpair, restLevel_eq_ok.1 hl⟩ (ih.1 ?_)
      rw [hrest]
      exact toOption_eq_some.2 hls
    · intro h
      cases h with
      | cons hx hxs =>
        obtain ⟨p, q, rfl, hread⟩ := hx
        obtain ⟨rest, hrest, hls⟩ := Option.bind_eq_some_iff.1 (ih.2 hxs)
        rw [hrest]
        show (Rest.decodeLevels ((p, q) :: rest)).toOption = _
        rw [toOption_eq_some, Rest.decodeLevels, List.mapM_cons, restLevel_eq_ok.2 hread]
        rw [toOption_eq_some, Rest.decodeLevels] at hls
        rw [hls]
        rfl

/-- The side is not null, and no level that the snapshot decoder can read has a third element
unless another level cannot be read. -/
def ReadAlike (side : Option Value) : Prop :=
  side ≠ some .null ∧
    ∀ levels, side = some (.array levels) → (∀ level ∈ levels, ∃ l, ReadsLevel level l) →
      ∀ level ∈ levels, ∃ p q, level = .array [p, q]

theorem ReadsLevel.readsPair {level : Value} {l : PriceLevel} (h : ReadsLevel level l)
    (hpair : ∃ p q, level = .array [p, q]) : ReadsPair level l := by
  obtain ⟨p, q, rest, rfl, hp, hq⟩ := h
  obtain ⟨p', q', heq⟩ := hpair
  cases heq
  exact ⟨p, q, rfl, hp, hq⟩

theorem forall₂_of_mem {α β : Type} {r s : α → β → Prop} {xs : List α} {ys : List β}
    (h : List.Forall₂ r xs ys) (hrs : ∀ x ∈ xs, ∀ y, r x y → s x y) : List.Forall₂ s xs ys := by
  induction h with
  | nil => exact .nil
  | cons hxy _ ih =>
    exact .cons (hrs _ List.mem_cons_self _ hxy) (ih fun x hx => hrs x (List.mem_cons_of_mem _ hx))

theorem exists_of_forall₂ {α β : Type} {r : α → β → Prop} {xs : List α} {ys : List β}
    (h : List.Forall₂ r xs ys) : ∀ x ∈ xs, ∃ y, r x y := by
  induction h with
  | nil => simp
  | cons hxy _ ih => exact List.forall_mem_cons.2 ⟨⟨_, hxy⟩, ih⟩

theorem forall₂_exists {α β : Type} {r : α → β → Prop} {xs : List α}
    (h : ∀ x ∈ xs, ∃ y, r x y) : ∃ ys, List.Forall₂ r xs ys := by
  induction xs with
  | nil => exact ⟨[], .nil⟩
  | cons x xs ih =>
    obtain ⟨y, hy⟩ := h x List.mem_cons_self
    obtain ⟨ys, hys⟩ := ih fun z hz => h z (List.mem_cons_of_mem _ hz)
    exact ⟨y :: ys, .cons hy hys⟩

theorem wsSide_eq_restSide_iff (side : Option Value) :
    wsSide side = restSide side ↔ ReadAlike side := by
  constructor
  · intro h
    refine ⟨?_, ?_⟩
    · rintro rfl
      cases h
    · rintro xs rfl hreads
      obtain ⟨levels, hlevels⟩ := forall₂_exists hreads
      rw [wsSide_eq_some.2 (.levels hlevels)] at h
      intro level hlevel
      obtain ⟨l, p, q, hpair, -⟩ := exists_of_forall₂ (restSide_array.1 h.symm) level hlevel
      exact ⟨_, _, hpair⟩
  · rintro ⟨hnull, hpairs⟩
    cases side with
    | none => rfl
    | some v =>
      cases v with
      | null => exact absurd rfl hnull
      | array xs =>
        apply Option.ext
        intro levels
        rw [wsSide_eq_some, restSide_array]
        constructor
        · intro h
          cases h with
          | levels h =>
            exact forall₂_of_mem h fun level hlevel l hl =>
              hl.readsPair (hpairs xs rfl (exists_of_forall₂ h) level hlevel)
        · intro h
          exact .levels (h.imp fun _ _ => ReadsPair.readsLevel)
      | bool b => rfl
      | number n => rfl
      | string s => rfl
      | object fields => rfl

/-! ## The whole book, read twice -/

/-- A member that may be absent. -/
def member (key : String) : Option Value → List (String × Value)
  | none => []
  | some v => [(key, v)]

/-- The snapshot message of a book with these sides. -/
def snapshotMessage (ticker : String) (yes no : Option Value) : Value :=
  .object (("market_ticker", .string ticker) ::
    (member "no_dollars_fp" no ++ member "yes_dollars_fp" yes))

/-- The batch entry of a book with these sides. -/
def restEntry (ticker : String) (yes no : Option Value) : Value :=
  .object [("orderbook_fp", .object (member "no_dollars" no ++ member "yes_dollars" yes)),
    ("ticker", .string ticker)]

/-- The two sides a snapshot message is read as. -/
def wsBook (msg : Value) (recvTs : Timestamp) : Option (List PriceLevel × List PriceLevel) :=
  match decodeSnapshot msg recvTs with
  | .ok (_, .snapshot s) => some (s.yes, s.no)
  | _ => none

/-- The two sides a batch entry is read as. -/
def restBook (lib : JsonLib) (raw : Value) (ticker : String) :
    Option (List PriceLevel × List PriceLevel) :=
  match Rest.decodeBook lib raw (some ticker) with
  | .book _ yes no => some (yes, no)
  | .undecodable .. => none

section Book

variable (lib : JsonLib) (ticker : String) (yes no : Option Value) (recvTs : Timestamp)

theorem wsBook_snapshotMessage : wsBook (snapshotMessage ticker yes no) recvTs =
    (wsSide yes).bind fun y => (wsSide no).map fun n => (y, n) := by
  have ht : tickerOf (snapshotMessage ticker yes no) = .ok ⟨ticker⟩ := rfl
  have hyes : (snapshotMessage ticker yes no).get "yes_dollars_fp" = yes := by
    cases yes <;> cases no <;> rfl
  have hno : (snapshotMessage ticker yes no).get "no_dollars_fp" = no := by
    cases yes <;> cases no <;> rfl
  rw [wsBook, decodeSnapshot, ht, hyes, hno, wsSide, wsSide]
  cases decodeLevels yes with
  | error e => rfl
  | ok y =>
    cases decodeLevels no with
    | error e => rfl
    | ok n => rfl

/-- The sides of an entry are those of its wire shape. -/
theorem restBook_eq {raw fp : Value} (h : raw.get "orderbook_fp" = some fp) :
    restBook lib raw ticker = (OrderbookCountFpWire.fromValue fp).bind fun wire =>
      (Rest.decodeLevels wire.yesDollars).toOption.bind fun y =>
        (Rest.decodeLevels wire.noDollars).toOption.map fun n => (y, n) := by
  rw [restBook, Rest.decodeBook, h]
  cases hwire : OrderbookCountFpWire.fromValue fp with
  | none => simp [okOr, hwire, bind, Except.bind]
  | some wire =>
    cases hyes : Rest.decodeLevels wire.yesDollars with
    | error e => simp [okOr, hwire, hyes, bind, Except.bind, Except.toOption]
    | ok y =>
      cases hno : Rest.decodeLevels wire.noDollars <;>
        simp [okOr, hwire, hyes, hno, bind, Except.bind, pure, Except.pure, Except.toOption]

theorem restBook_restEntry : restBook lib (restEntry ticker yes no) ticker =
    (restSide yes).bind fun y => (restSide no).map fun n => (y, n) := by
  have hyes : (member "no_dollars" no ++ member "yes_dollars" yes).lookup "yes_dollars" = yes := by
    cases yes <;> cases no <;> rfl
  have hno : (member "no_dollars" no ++ member "yes_dollars" yes).lookup "no_dollars" = no := by
    cases yes <;> cases no <;> rfl
  have hfp : (restEntry ticker yes no).get "orderbook_fp" =
      some (.object (member "no_dollars" no ++ member "yes_dollars" yes)) := rfl
  rw [restBook_eq lib ticker hfp, OrderbookCountFpWire.fromValue, hyes, hno, restSide, restSide]
  cases wireLevels yes with
  | none => rfl
  | some ys =>
    cases wireLevels no with
    | none => cases hys : (Rest.decodeLevels ys).toOption <;> simp [hys]
    | some ns => rfl

end Book

/-- The WebSocket and the REST decoder read one book side alike exactly when it is not null and no
pair is too long, wherever the side stands; a book of two such sides is read alike as a whole. -/
theorem book_sides_read_alike_iff (lib : JsonLib) (ticker : String) (recvTs : Timestamp) :
    (∀ side, wsBook (snapshotMessage ticker side none) recvTs =
      restBook lib (restEntry ticker side none) ticker ↔ ReadAlike side) ∧
    (∀ side, wsBook (snapshotMessage ticker none side) recvTs =
      restBook lib (restEntry ticker none side) ticker ↔ ReadAlike side) ∧
    ∀ yes no, ReadAlike yes → ReadAlike no →
      wsBook (snapshotMessage ticker yes no) recvTs =
        restBook lib (restEntry ticker yes no) ticker := by
  have habsent : wsSide none = some [] := rfl
  have habsent' : restSide none = some [] := rfl
  refine ⟨fun side => ?_, fun side => ?_, fun yes no hyes hno => ?_⟩
  · rw [wsBook_snapshotMessage, restBook_restEntry, habsent, habsent', ← wsSide_eq_restSide_iff]
    refine ⟨fun h => ?_, fun h => by rw [h]⟩
    revert h
    cases wsSide side <;> cases restSide side <;> simp
  · rw [wsBook_snapshotMessage, restBook_restEntry, habsent, habsent', ← wsSide_eq_restSide_iff]
    refine ⟨fun h => ?_, fun h => by rw [h]⟩
    revert h
    cases wsSide side <;> cases restSide side <;> simp
  · rw [wsBook_snapshotMessage, restBook_restEntry, (wsSide_eq_restSide_iff yes).2 hyes,
      (wsSide_eq_restSide_iff no).2 hno]

/-- A null side is an empty book to one decoder and no book to the other. -/
theorem null_side_read_differently :
    wsBook (snapshotMessage "K" (some .null) none) { nanos := 0 } = some ([], []) ∧
      restBook JsonLib.integral (restEntry "K" (some .null) none) "K" = none := by
  rw [wsBook_snapshotMessage, restBook_restEntry]
  exact ⟨rfl, rfl⟩

end Snapevent
