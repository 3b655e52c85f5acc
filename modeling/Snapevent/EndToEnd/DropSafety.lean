import Mathlib.Data.List.Induction
import Snapevent.Cli.Capture
import Snapevent.Process.Collected
import Snapevent.Process.Run

/-!
# Dropping the raw capture

A ticker's outcome is called complete when it has neither read errors nor raw rows, and a capture
tree whose outcomes are all complete may be deleted.  The processor only walks the orderbook and
trade directories; the writer has a third one, for frames it cannot place.
-/

namespace Snapevent

/-! ## The stored items of a tree -/

/-- An item of a capture tree and the stream it was read from. -/
structure StoredItem where
  ticker : String
  channel : String
  item : ReadItem

/-- The items of a file. -/
def StreamFile.items (f : StreamFile) : List StoredItem :=
  (readEnvelopes f.lines).map fun i => ⟨f.ticker, f.channel, i⟩

/-- The items of every file of a tree, walked or not. -/
def Tree.items (tree : Tree) : List StoredItem := tree.flatMap StreamFile.items

/-- The items of every file in a ticker's directory. -/
def Tree.itemsOf (tree : Tree) (ticker : String) : List StoredItem :=
  tree.items.filter fun r => r.ticker = ticker

/-- An unreadable line or a raw fallback. -/
def Undecoded : ReadItem → Prop
  | .error _ => True
  | .ok env => ∃ r, env.kind = .raw r

/-- A record is in a structured table of an output. -/
def StructuredIn (out : TickerOutput) (i : ReadItem) : Prop :=
  match i with
  | .error _ => False
  | .ok env =>
    match env.kind with
    | .snapshot _ => bookRows i <:+: out.bookEvents.map (·.unnumbered)
    | .delta _ => bookRows i <:+: out.bookEvents.map (·.unnumbered)
    | .trade _ => tradeRows i <:+: out.trades
    | .gap g => GapsTable.row env g ∈ out.gaps
    | .raw _ => False
    | .verify v => restObservation env.recvUs v.yes v.no ∈ out.verify.map (·.observation)

/-- The outputs say truly whether the files of a tree may be dropped: when every outcome is complete
every record is in a structured table, and what is in none makes an outcome incomplete and is kept
as a read error or a raw row of its ticker. -/
structure DropSafe (tree : Tree) (outs : List TickerOutput) : Prop where
  represented : (∀ out ∈ outs, out.outcome.complete = true) → ∀ r ∈ tree.items,
    ∃ out ∈ outs, out.outcome.ticker = r.ticker ∧ StructuredIn out r.item
  flagged : ∀ r ∈ tree.items, Undecoded r.item → ∃ out ∈ outs, out.outcome.complete = false
  keepsErrors : ∀ ticker, ((tree.itemsOf ticker).flatMap fun r => readErrorsOf r.item).Subperm
    ((outs.filter fun out => out.outcome.ticker = ticker).flatMap (·.readErrors))
  keepsRaw : ∀ ticker, ((tree.itemsOf ticker).flatMap fun r => rawRows r.channel r.item).Subperm
    ((outs.filter fun out => out.outcome.ticker = ticker).flatMap (·.raw))

/-- A frame the writer cannot place: raw, and of no known channel. -/
def Incoming.unplaced : Incoming → Bool
  | .event ev =>
    match ev.frame.outcome with
    | .raw none _ _ => true
    | _ => false
  | .verify _ _ => false

/-! ## The directories that are walked -/

/-- The file is in a directory the processor does not walk. -/
def StreamFile.foreign (f : StreamFile) : Bool :=
  decide (f.channel ≠ Channel.orderbook.str ∧ f.channel ≠ Channel.trade.str)

/-- The items of a stream, as its ticker directory holds them. -/
def Tree.streamItems (tree : Tree) (ticker : String) (c : Channel) : List StoredItem :=
  (readItems (tree.files ticker c.str)).map fun i => ⟨ticker, c.str, i⟩

theorem streamItems_perm (tree : Tree) (ticker : String) (c : Channel) :
    (Tree.items (tree.filter fun f => f.ticker = ticker ∧ f.channel = c.str)).Perm
      (tree.streamItems ticker c) := by
  have hfiles : (tree.files ticker c.str).Perm
      ((tree.filter fun f => f.ticker = ticker ∧ f.channel = c.str).map fun f => ⟨f.path, f.lines⟩) :=
    List.perm_insertionSort _ _
  have hitems := ((hfiles.flatMap_right fun f => readEnvelopes f.lines).map fun i =>
    (⟨ticker, c.str, i⟩ : StoredItem)).symm
  rw [List.flatMap_map, List.map_flatMap] at hitems
  refine List.Perm.trans (List.Perm.of_eq ?_) hitems
  refine List.flatMap_congr fun f hf => ?_
  obtain ⟨ht, hc⟩ := of_decide_eq_true (List.mem_filter.1 hf).2
  rw [StreamFile.items, ht, hc]

theorem itemsOf_eq (tree : Tree) (ticker : String) :
    tree.itemsOf ticker = Tree.items (tree.filter fun f => f.ticker = ticker) := by
  rw [Tree.itemsOf, Tree.items, List.filter_flatMap, Tree.items]
  induction tree with
  | nil => rfl
  | cons f tree ih =>
    rw [List.flatMap_cons, ih, List.filter_cons]
    have hitems : f.items.filter (fun r => r.ticker = ticker) =
        if f.ticker = ticker then f.items else [] := by
      split_ifs with h <;> simp [StreamFile.items, List.filter_map, Function.comp_def, h]
    rw [hitems]
    by_cases h : f.ticker = ticker <;> simp [h]

theorem itemsOf_perm (tree : Tree) (ticker : String) :
    (tree.itemsOf ticker).Perm (tree.streamItems ticker .orderbook ++
      tree.streamItems ticker .trade ++ Tree.itemsOf (tree.filter (·.foreign)) ticker) := by
  let ob : StreamFile → Bool := fun f => f.channel = Channel.orderbook.str
  let tr : StreamFile → Bool := fun f => f.channel = Channel.trade.str
  have hsplit : (tree.filter fun f => f.ticker = ticker).Perm
      ((tree.filter fun f => f.ticker = ticker ∧ f.channel = Channel.orderbook.str) ++
        (tree.filter fun f => f.ticker = ticker ∧ f.channel = Channel.trade.str) ++
        (tree.filter (·.foreign)).filter fun f => f.ticker = ticker) := by
    have h₁ := (List.filter_append_perm ob (tree.filter fun f => f.ticker = ticker)).symm
    have h₂ := (List.filter_append_perm tr
      ((tree.filter fun f => f.ticker = ticker).filter fun f => !ob f)).symm
    refine (h₁.trans (h₂.append_left _)).trans (List.Perm.of_eq ?_)
    simp only [List.filter_filter, ob, tr, List.append_assoc]
    congr 1
    · refine List.filter_congr fun f _ => ?_
      simp [Bool.and_comm]
    · congr 1
      · refine List.filter_congr fun f _ => ?_
        rw [Bool.eq_iff_iff]
        simp only [Bool.and_eq_true, decide_eq_true_eq, Bool.not_eq_true', decide_eq_false_iff_not]
        constructor
        · rintro ⟨hc, -, ht⟩
          exact ⟨ht, hc⟩
        · rintro ⟨ht, hc⟩
          exact ⟨hc, by rw [hc]; decide, ht⟩
      · refine List.filter_congr fun f _ => ?_
        simp [StreamFile.foreign, Bool.and_comm, Bool.and_assoc]
  rw [itemsOf_eq, itemsOf_eq]
  apply (hsplit.flatMap_right StreamFile.items).trans
  rw [List.flatMap_append, List.flatMap_append]
  exact ((streamItems_perm tree ticker .orderbook).append
    (streamItems_perm tree ticker .trade)).append_right _

/-! ## What the outputs hold -/

theorem mem_discoverTickers {tree : Tree} {t : String} :
    t ∈ discoverTickers tree ↔ ∃ f ∈ tree, f.ticker = t := by
  rw [discoverTickers, Tree.tickers, List.mem_insertionSort, List.mem_dedup, List.mem_map]

theorem discoverTickers_nodup (tree : Tree) : (discoverTickers tree).Nodup :=
  (List.perm_insertionSort _ _).nodup_iff.2 (List.nodup_dedup _)

theorem processTickerDir_absent {tree : Tree} {t : String} (h : t ∉ discoverTickers tree) :
    processTickerDir tree t = .ok none := by
  have hfiles (channel : String) : tree.files t channel = [] := by
    have hnone : (tree.filter fun f => f.ticker = t ∧ f.channel = channel) = [] := by
      refine List.filter_eq_nil_iff.2 fun f hf hstream => ?_
      exact h (mem_discoverTickers.2 ⟨f, hf, (of_decide_eq_true hstream).1⟩)
    rw [Tree.files, hnone]
    rfl
  rw [processTickerDir, hfiles, hfiles]
  rfl

theorem outputOf_absent {tree : Tree} {t : String} (h : t ∉ discoverTickers tree) :
    outputOf tree t = none := by
  rw [outputOf, processTickerDir_absent h]
  rfl

theorem processTicker_eq_none {ticker : String} {orderbookFiles tradeFiles : List CaptureFile}
    (h : processTicker ticker orderbookFiles tradeFiles = .ok none) :
    orderbookFiles = [] ∧ tradeFiles = [] := by
  rw [processTicker] at h
  split_ifs at h with hempty
  · simpa using hempty
  · obtain ⟨st, -, h⟩ := FoldM.bind_ok h
    cases h

section Outputs

variable {inDir : String} {tree : Tree} {outs : List TickerOutput}
  (hrun : run inDir tree none = .ok outs)
include hrun

theorem processTickerDir_eq (t : String) : processTickerDir tree t = .ok (outputOf tree t) := by
  by_cases ht : t ∈ discoverTickers tree
  · exact (run_all hrun).2 t ht
  · rw [processTickerDir_absent ht, outputOf_absent ht]

theorem accounts_of_outputOf {t : String} {out : TickerOutput} (ho : outputOf tree t = some out) :
    Accounts t (tree.files t Channel.orderbook.str) (tree.files t Channel.trade.str) out :=
  accounts_of_processTicker ((processTickerDir_eq hrun t).trans (congrArg _ ho))

theorem mem_outs {t : String} {out : TickerOutput} (ho : outputOf tree t = some out) :
    out ∈ outs := by
  rw [(run_all hrun).1, List.mem_filterMap]
  refine ⟨t, ?_, ho⟩
  by_contra ht
  rw [outputOf_absent ht] at ho
  cases ho

theorem outs_filter (t : String) :
    (outs.filter fun out => out.outcome.ticker = t) = (outputOf tree t).toList := by
  have hone (u : String) : ((outputOf tree u).filter fun out => out.outcome.ticker = t) =
      if u = t then outputOf tree u else none := by
    cases ho : outputOf tree u with
    | none => simp
    | some out => simp [(accounts_of_outputOf hrun ho).ticker_eq, Option.filter_some]
  have hfilter := List.filterMap_filter (p := fun u => decide (u = t)) (f := outputOf tree)
    (l := discoverTickers tree)
  simp only [decide_eq_true_eq] at hfilter
  rw [(run_all hrun).1, List.filter_filterMap]
  simp only [hone]
  rw [← hfilter, List.filter_eq, (discoverTickers_nodup tree).count]
  split_ifs with ht
  · rcases ho : outputOf tree t with _ | out <;> simp [ho]
  · rw [outputOf_absent ht]
    rfl

/-- A table holds what the two walked streams of its ticker add. -/
theorem outs_collected {β : Type*} (get : TickerOutput → List β) (add : String → ReadItem → List β)
    {t : String} (hget : ∀ {out}, Accounts t (tree.files t Channel.orderbook.str)
      (tree.files t Channel.trade.str) out → get out =
        (readItems (tree.files t Channel.orderbook.str)).flatMap (add Channel.orderbook.str) ++
          (readItems (tree.files t Channel.trade.str)).flatMap (add Channel.trade.str)) :
    (outs.filter fun out => out.outcome.ticker = t).flatMap get =
      (tree.streamItems t .orderbook ++ tree.streamItems t .trade).flatMap
        fun r => add r.channel r.item := by
  rw [outs_filter hrun, List.flatMap_append, Tree.streamItems, Tree.streamItems, List.flatMap_map,
    List.flatMap_map]
  cases ho : outputOf tree t with
  | none =>
    have hdir := processTickerDir_eq hrun t
    rw [ho] at hdir
    obtain ⟨hob, htr⟩ := processTicker_eq_none hdir
    rw [hob, htr]
    rfl
  | some out => simpa using hget (accounts_of_outputOf hrun ho)

/-- A table keeps what all directories of a ticker add exactly when the ones that are not walked
add nothing. -/
theorem keeps_iff {β : Type*} (get : TickerOutput → List β) (add : String → ReadItem → List β)
    {t : String} (hget : ∀ {out}, Accounts t (tree.files t Channel.orderbook.str)
      (tree.files t Channel.trade.str) out → get out =
        (readItems (tree.files t Channel.orderbook.str)).flatMap (add Channel.orderbook.str) ++
          (readItems (tree.files t Channel.trade.str)).flatMap (add Channel.trade.str)) :
    ((tree.itemsOf t).flatMap fun r => add r.channel r.item).Subperm
        ((outs.filter fun out => out.outcome.ticker = t).flatMap get) ↔
      ((Tree.itemsOf (tree.filter (·.foreign)) t).flatMap fun r => add r.channel r.item) = [] := by
  have hperm := (itemsOf_perm tree t).flatMap_right fun r => add r.channel r.item
  rw [List.flatMap_append] at hperm
  rw [outs_collected hrun get add hget]
  constructor
  · intro hsub
    have hlen := hsub.length_le
    rw [hperm.length_eq, List.length_append] at hlen
    exact List.length_eq_zero_iff.1 (by omega)
  · intro hnil
    rw [hnil, List.append_nil] at hperm
    exact hperm.subperm

end Outputs

/-- An item of a ticker's walked streams is structured, or makes the outcome incomplete. -/
theorem structuredIn_or_incomplete {ticker : String} {orderbookFiles tradeFiles : List CaptureFile}
    {out : TickerOutput} (acc : Accounts ticker orderbookFiles tradeFiles out) {i : ReadItem}
    (hi : i ∈ readItems orderbookFiles ++ readItems tradeFiles) :
    (StructuredIn out i ∧ ¬ Undecoded i) ∨ (Undecoded i ∧ out.outcome.complete = false) := by
  have hincomplete (h : ¬ (out.readErrors = [] ∧ out.raw = [])) : out.outcome.complete = false := by
    rw [← Bool.not_eq_true, acc.complete_iff]
    exact h
  have hwithin {β : Type} {rows : List β} {f : ReadItem → List β}
      (hrows : rows = (readItems orderbookFiles ++ readItems tradeFiles).flatMap f) :
      f i <:+: rows := by
    obtain ⟨pre, post, hl⟩ := List.append_of_mem hi
    rw [hrows, hl]
    exact ⟨pre.flatMap f, post.flatMap f, by simp⟩
  cases i with
  | error e =>
    refine Or.inr ⟨trivial, hincomplete fun h => ?_⟩
    have hin : readErrorsOf (.error e) <:+: out.readErrors := hwithin acc.readErrors
    rw [h.1] at hin
    simp [readErrorsOf] at hin
  | ok env =>
    rw [StructuredIn, Undecoded]
    rcases hk : env.kind with s | d | t | g | r | v
    case snapshot => exact Or.inl ⟨hwithin acc.book, by simp⟩
    case delta => exact Or.inl ⟨hwithin acc.book, by simp⟩
    case trade => exact Or.inl ⟨hwithin acc.trades, by simp⟩
    case gap =>
      refine Or.inl ⟨?_, by simp⟩
      have hg : (env, g) ∈ streamGaps orderbookFiles tradeFiles :=
        List.mem_filterMap.2 ⟨_, hi, by simp [gapRecord, hk]⟩
      rw [acc.gaps, gapsTable_eq]
      exact List.mem_map.2 ⟨(env, g), (List.mem_insertionSort _).2 (List.mem_append_left _ hg), rfl⟩
    case raw =>
      refine Or.inr ⟨⟨r, rfl⟩, hincomplete fun h => ?_⟩
      have hraw := acc.raw.symm.trans h.2
      rw [List.append_eq_nil_iff, List.flatMap_eq_nil_iff, List.flatMap_eq_nil_iff] at hraw
      rcases List.mem_append.1 hi with hi | hi
      · have := hraw.1 _ hi
        simp [rawRows, hk] at this
      · have := hraw.2 _ hi
        simp [rawRows, hk] at this
    case verify =>
      refine Or.inl ⟨?_, by simp⟩
      have hin : observationsOf (.ok env) <:+: out.verify.map (·.observation) := hwithin acc.verify
      exact hin.subset (by simp [observationsOf, hk])

/-! ## What the writer stores -/

/-- A placed record goes to a walked channel, an unplaced one is raw and goes to the third. -/
theorem Incoming.target_spec {i : Incoming} {ticker channel : String} {env : Envelope}
    (h : i.target = some (ticker, channel, env)) :
    env.validate = .ok () ∧ if i.unplaced then channel = RAW_CHANNEL ∧ Undecoded (.ok env)
      else ∃ c : Channel, channel = c.str := by
  rcases i with ⟨recvTs, sid, seq, ⟨c, t, record⟩ | m | d | ⟨c, t, r⟩⟩ | ⟨outcome, now⟩
  · cases h
    exact ⟨rfl, c, rfl⟩
  · cases h
  · cases h
  · cases c with
    | none =>
      cases h
      exact ⟨rfl, rfl, r, rfl⟩
    | some c =>
      cases h
      exact ⟨rfl, c, rfl⟩
  · rcases outcome with ⟨t, yes, no⟩ | ⟨t, error, payload⟩
    · cases h
      exact ⟨rfl, .orderbook, rfl⟩
    · cases h
      exact ⟨rfl, .orderbook, rfl⟩

/-- A stored line is read as its record or as an error. -/
theorem Line.Stores.readLine {env : Envelope} {line : Line} (h : line.Stores env)
    (hv : env.validate = .ok ()) (n : ℕ) :
    ∃ i, readLine n line = some i ∧ (i = .ok env ∨ Undecoded i) := by
  cases h with
  | written hraw => exact ⟨.ok env, by simp [Snapevent.readLine, hraw, hv], Or.inl rfl⟩
  | @damaged raw error hraw =>
    refine ⟨.error ⟨n, "json parse: " ++ error, raw⟩, ?_, Or.inr trivial⟩
    simp [Snapevent.readLine, hraw]
  | @failed error => exact ⟨.error ⟨n, "io error: " ++ error, ""⟩, rfl, Or.inr trivial⟩

/-- Every file has lines, and they store the records of its stream. -/
theorem mem_stored {records : List Persisted} {f : StreamFile}
    (hf : f ∈ records.foldl Persisted.store []) :
    f.lines ≠ [] ∧ ∀ l ∈ f.lines, ∃ p ∈ records, ∃ env,
      p.incoming.target = some (f.ticker, f.channel, env) ∧ p.line = l := by
  induction records using List.reverseRecOn generalizing f with
  | nil => simp at hf
  | append_singleton records p ih =>
    rw [List.foldl_append, List.foldl_cons, List.foldl_nil, Persisted.store] at hf
    have hold {f : StreamFile} (hf : f ∈ records.foldl Persisted.store []) {l : Line}
        (hl : l ∈ f.lines) : ∃ q ∈ records ++ [p], ∃ env,
          q.incoming.target = some (f.ticker, f.channel, env) ∧ q.line = l := by
      obtain ⟨q, hq, henv⟩ := (ih hf).2 l hl
      exact ⟨q, List.mem_append_left _ hq, henv⟩
    rcases ht : p.incoming.target with _ | ⟨ticker, channel, env⟩
    · rw [ht] at hf
      exact ⟨(ih hf).1, fun l hl => hold hf hl⟩
    · rw [ht] at hf
      rcases Tree.mem_appendLine hf with hf | ⟨hticker, hchannel, lines, hlines, hlines_old⟩
      · exact ⟨(ih hf).1, fun l hl => hold hf hl⟩
      · rw [hlines]
        refine ⟨by simp, fun l hl => ?_⟩
        rcases List.mem_append.1 hl with hl | hl
        · obtain ⟨g, hg, hgt, hgc, hgl⟩ := hlines_old l hl
          have hstored := hold hg hgl
          rwa [hgt, hgc, ← hticker, ← hchannel] at hstored
        · rw [List.mem_singleton.1 hl]
          exact ⟨p, by simp, env, by rw [ht, hticker, hchannel], rfl⟩

/-- A persisted record's stream has a file. -/
theorem stream_stored {records : List Persisted} {p : Persisted} (hp : p ∈ records)
    {ticker channel : String} {env : Envelope}
    (ht : p.incoming.target = some (ticker, channel, env)) :
    (ticker, channel) ∈ (records.foldl Persisted.store []).map fun f => (f.ticker, f.channel) := by
  induction records using List.reverseRecOn with
  | nil => simp at hp
  | append_singleton records q ih =>
    rw [List.foldl_append, List.foldl_cons, List.foldl_nil, Persisted.store]
    rcases List.mem_append.1 hp with hp | hp
    · rcases q.incoming.target with _ | ⟨ticker', channel', env'⟩
      · exact ih hp
      · exact Tree.stream_mem_appendLine_of_mem (ih hp)
    · rw [List.mem_singleton.1 hp] at ht
      rw [ht]
      exact Tree.stream_mem_appendLine

section Written

variable {records : List Persisted} {f : StreamFile}
  (hf : f ∈ records.foldl Persisted.store [])
include hf

/-- Every line of a written file is read as one item, which is an error or the record of its
stream. -/
theorem stored_line {l : Line} (hl : l ∈ f.lines) : ∃ p ∈ records, ∃ env,
    p.incoming.target = some (f.ticker, f.channel, env) ∧
      ∀ n, ∃ i, readLine n l = some i ∧ (i = .ok env ∨ Undecoded i) := by
  obtain ⟨p, hp, env, ht, rfl⟩ := (mem_stored hf).2 l hl
  exact ⟨p, hp, env, ht, (p.stored _ ht).readLine (Incoming.target_spec ht).1⟩

theorem items_ne_nil : f.items ≠ [] := by
  obtain ⟨l, lines, hlines⟩ := List.exists_cons_of_ne_nil (mem_stored hf).1
  obtain ⟨p, -, env, -, hread⟩ := stored_line hf (hlines ▸ List.mem_cons_self)
  obtain ⟨i, hi, -⟩ := hread 1
  rw [StreamFile.items, readEnvelopes, hlines, List.zipIdx_cons, List.filterMap_cons, hi]
  simp

theorem unplaced_of_foreign (hforeign : f.foreign = true) :
    (∃ p ∈ records, p.incoming.unplaced = true) ∧ ∀ r ∈ f.items, Undecoded r.item := by
  have hline {l : Line} (hl : l ∈ f.lines) : (∃ p ∈ records, p.incoming.unplaced = true) ∧
      ∀ n, ∃ i, readLine n l = some i ∧ Undecoded i := by
    obtain ⟨p, hp, env, ht, hread⟩ := stored_line hf hl
    have hspec := (Incoming.target_spec ht).2
    split_ifs at hspec with hu
    · refine ⟨⟨p, hp, hu⟩, fun n => ?_⟩
      obtain ⟨i, hi, rfl | hund⟩ := hread n
      · exact ⟨_, hi, hspec.2⟩
      · exact ⟨i, hi, hund⟩
    · obtain ⟨c, hc⟩ := hspec
      obtain ⟨hob, htr⟩ := of_decide_eq_true hforeign
      rcases c with _ | _
      · exact absurd hc hob
      · exact absurd hc htr
  constructor
  · obtain ⟨l, lines, hlines⟩ := List.exists_cons_of_ne_nil (mem_stored hf).1
    exact (hline (hlines ▸ List.mem_cons_self)).1
  · intro r hr
    obtain ⟨i, hi, rfl⟩ := List.mem_map.1 hr
    obtain ⟨⟨l, n⟩, hln, hread⟩ := List.mem_filterMap.1 hi
    obtain ⟨j, hj, hund⟩ := (hline (List.fst_mem_of_mem_zipIdx hln)).2 n
    cases hj.symm.trans hread
    exact hund

end Written

theorem exists_foreign_iff {records : List Persisted} :
    (∃ f ∈ records.foldl Persisted.store [], f.foreign = true) ↔
      ∃ p ∈ records, p.incoming.unplaced = true := by
  constructor
  · rintro ⟨f, hf, hforeign⟩
    exact (unplaced_of_foreign hf hforeign).1
  · rintro ⟨p, hp, hu⟩
    have hsome : p.incoming.target.isSome := by
      rcases hi : p.incoming with ⟨recvTs, sid, seq, ⟨c, t, record⟩ | m | d | ⟨c, t, r⟩⟩ | ⟨o, now⟩ <;>
        rw [hi] at hu <;> first | rfl | cases hu
    obtain ⟨⟨ticker, channel, env⟩, ht⟩ := Option.isSome_iff_exists.1 hsome
    obtain ⟨f, hf, hkey⟩ := List.mem_map.1 (stream_stored hp ht)
    have hspec := (Incoming.target_spec ht).2
    rw [if_pos hu] at hspec
    refine ⟨f, hf, ?_⟩
    rw [StreamFile.foreign, (Prod.mk.inj hkey).2, hspec.1]
    decide

/-! ## When the raw capture may be dropped -/

section Run

variable {inDir : String} {tree : Tree} {outs : List TickerOutput}
  (hrun : run inDir tree none = .ok outs)
include hrun

/-- An item of a walked directory is structured in its ticker's output or makes it incomplete. -/
theorem exists_output_of_walked (hnil : tree.filter (·.foreign) = []) {r : StoredItem}
    (hr : r ∈ tree.items) : ∃ out ∈ outs, out.outcome.ticker = r.ticker ∧
      ((StructuredIn out r.item ∧ ¬ Undecoded r.item) ∨
        (Undecoded r.item ∧ out.outcome.complete = false)) := by
  have hwalked : r ∈ tree.streamItems r.ticker .orderbook ++ tree.streamItems r.ticker .trade := by
    have hof : r ∈ tree.itemsOf r.ticker := List.mem_filter.2 ⟨hr, by simp⟩
    have hmem := (itemsOf_perm tree r.ticker).mem_iff.1 hof
    rw [hnil] at hmem
    simpa [Tree.itemsOf, Tree.items] using hmem
  have hitem : r.item ∈ readItems (tree.files r.ticker Channel.orderbook.str) ++
      readItems (tree.files r.ticker Channel.trade.str) := by
    refine List.mem_append.2 ((List.mem_append.1 hwalked).imp ?_ ?_) <;>
    · intro hstream
      obtain ⟨i, hi, hri⟩ := List.mem_map.1 hstream
      rwa [← hri]
  cases ho : outputOf tree r.ticker with
  | none =>
    have hdir := processTickerDir_eq hrun r.ticker
    rw [ho] at hdir
    obtain ⟨hob, htr⟩ := processTicker_eq_none hdir
    rw [hob, htr] at hitem
    simp [readItems] at hitem
  | some out =>
    have acc := accounts_of_outputOf hrun ho
    exact ⟨out, mem_outs hrun ho, acc.ticker_eq, structuredIn_or_incomplete acc hitem⟩

/-- A tree whose directories are all walked may be dropped when its outcomes say so. -/
theorem dropSafe_of_walked (hnil : tree.filter (·.foreign) = []) : DropSafe tree outs := by
  have hkeeps {β : Type} (add : String → ReadItem → List β) (t : String) :
      ((Tree.itemsOf (tree.filter (·.foreign)) t).flatMap fun r => add r.channel r.item) = [] := by
    rw [hnil]
    rfl
  constructor
  case represented =>
    intro hcomplete r hr
    obtain ⟨out, hout, ht, ⟨hs, -⟩ | ⟨-, hincomplete⟩⟩ := exists_output_of_walked hrun hnil hr
    · exact ⟨out, hout, ht, hs⟩
    · rw [hcomplete out hout] at hincomplete
      cases hincomplete
  case flagged =>
    intro r hr hund
    obtain ⟨out, hout, -, ⟨-, hdec⟩ | ⟨-, hincomplete⟩⟩ := exists_output_of_walked hrun hnil hr
    · exact absurd hund hdec
    · exact ⟨out, hout, hincomplete⟩
  case keepsErrors =>
    intro t
    exact (keeps_iff hrun (·.readErrors) (fun _ => readErrorsOf) (fun acc => by
      rw [acc.readErrors, List.flatMap_append])).2 (hkeeps (fun _ => readErrorsOf) t)
  case keepsRaw =>
    intro t
    exact (keeps_iff hrun (·.raw) rawRows (fun acc => acc.raw)).2 (hkeeps rawRows t)

theorem not_undecoded_of_dropSafe (h : DropSafe tree outs) {f : StreamFile} (hf : f ∈ tree)
    (hforeign : f.foreign = true) {r : StoredItem} (hr : r ∈ f.items) : ¬ Undecoded r.item := by
  have herrors := (keeps_iff hrun (·.readErrors) (fun _ => readErrorsOf) (fun acc => by
    rw [acc.readErrors, List.flatMap_append])).1 (h.keepsErrors r.ticker)
  have hraw := (keeps_iff hrun (·.raw) rawRows (fun acc => acc.raw)).1 (h.keepsRaw r.ticker)
  have hmem : r ∈ Tree.itemsOf (tree.filter (·.foreign)) r.ticker :=
    List.mem_filter.2 ⟨List.mem_flatMap.2 ⟨f, List.mem_filter.2 ⟨hf, hforeign⟩, hr⟩, by simp⟩
  have hnoError := List.flatMap_eq_nil_iff.1 herrors r hmem
  have hnoRaw := List.flatMap_eq_nil_iff.1 hraw r hmem
  cases hi : r.item with
  | error e => simp [hi, readErrorsOf] at hnoError
  | ok env =>
    rintro ⟨raw, hk⟩
    simp [hi, rawRows, hk] at hnoRaw

end Run

/-- Completeness of all outcomes licenses deleting the capture exactly when every frame the writer
persisted could be placed: what goes to the directory that is not walked is neither processed nor
reported. -/
theorem dropSafe_iff {records : List Persisted} {w : Writer} (hw : writerTask records = .ok w)
    {inDir : String} {outs : List TickerOutput} (hrun : run inDir w.tree none = .ok outs) :
    DropSafe w.tree outs ↔ ∀ p ∈ records, p.incoming.unplaced = false := by
  have htree : w.tree = records.foldl Persisted.store [] := by
    obtain ⟨report, htask⟩ := writerTask_ok records
    cases hw.symm.trans htask
    rfl
  constructor
  · intro hsafe p hp
    by_contra hu
    obtain ⟨f, hf, hforeign⟩ := exists_foreign_iff.2 ⟨p, hp, Bool.not_eq_false _ ▸ hu⟩
    obtain ⟨r, items, hitems⟩ := List.exists_cons_of_ne_nil (items_ne_nil hf)
    have hr : r ∈ f.items := hitems ▸ List.mem_cons_self
    exact not_undecoded_of_dropSafe hrun hsafe (htree ▸ hf) hforeign hr
      ((unplaced_of_foreign hf hforeign).2 r hr)
  · intro hplaced
    refine dropSafe_of_walked hrun (List.filter_eq_nil_iff.2 fun f hf hforeign => ?_)
    obtain ⟨p, hp, hu⟩ := exists_foreign_iff.1 ⟨f, htree ▸ hf, hforeign⟩
    rw [hplaced p hp] at hu
    cases hu

/-! ### A frame without a type -/

/-- A frame received at `us` microseconds, stored as it was written. -/
def storedFrame (us : ℤ) (hus : minUtcNanos ≤ us * 1000 ∧ us * 1000 ≤ maxUtcNanos)
    (frame : DecodedFrame) : Persisted :=
  let incoming : Incoming := .event ⟨⟨us * 1000, hus⟩, frame⟩
  { incoming, day := "2026-07-03"
    line := match incoming.target with
      | some (_, _, env) => .text "\x7b\x7d" (.ok env)
      | none => .io ""
    stored := by
      intro t ht
      rw [Option.mem_def.1 ht]
      exact .written (by decide) }

/-- A trade of market `A`. -/
def tradeFrame : DecodedFrame :=
  { sid := some 2, seq := some 1
    outcome := .data .trade ⟨"A"⟩ (.trade
      { ticker := ⟨"A"⟩, ts := epoch, price := ⟨500000⟩, count := ⟨100⟩, takerSide := .yes
        takerBookSide := none, tradeId := some "t1" }) }

/-- What the text frame `[]` is decoded to. -/
def unplacedFrame : DecodedFrame :=
  { sid := none, seq := none
    outcome := .raw none none { rawType := none, ticker := none
                                error := "frame missing string 'type'", payload := .array [] } }

/-- A trade that names its market but lacks its price. -/
def fallbackFrame : DecodedFrame :=
  { sid := some 2, seq := some 2
    outcome := .raw (some .trade) (some ⟨"A"⟩)
      { rawType := some "trade", ticker := some ⟨"A"⟩, error := "missing field yes_price_dollars"
        payload := .object [] } }

/-- The trade again, where the writer died within the line. -/
def tornTrade : Persisted :=
  { storedFrame 9 (by decide) tradeFrame with
    line := .text "\x7b" (.error "EOF while parsing an object")
    stored := fun _ _ => .damaged (by decide) }

theorem dropSafe_iff_fallback : ∃ w outs,
    writerTask [storedFrame 1 (by decide) tradeFrame, storedFrame 2 (by decide) fallbackFrame,
      tornTrade] = .ok w ∧ run "capture" w.tree none = .ok outs ∧
      outs.map (fun out => (out.raw.length, out.readErrors.length, out.outcome.complete)) =
        [(1, 1, false)] ∧ DropSafe w.tree outs := by
  obtain ⟨w, outs, hw, hrun, houts⟩ : ∃ w outs, writerTask [storedFrame 1 (by decide) tradeFrame,
      storedFrame 2 (by decide) fallbackFrame, tornTrade] = .ok w ∧
      run "capture" w.tree none = .ok outs ∧
      outs.map (fun out => (out.raw.length, out.readErrors.length, out.outcome.complete)) =
        [(1, 1, false)] := ⟨_, _, rfl, rfl, rfl⟩
  refine ⟨w, outs, hw, hrun, houts, (dropSafe_iff hw hrun).2 ?_⟩
  simp [storedFrame, tradeFrame, fallbackFrame, tornTrade, Incoming.unplaced]

/-- With a frame without a type after the trade, the only outcome is complete, and the raw record of
that frame is in no output. -/
theorem unplaced_frame_lost : ∃ w outs,
    writerTask [storedFrame 1 (by decide) tradeFrame, storedFrame 2 (by decide) unplacedFrame] =
      .ok w ∧ run "capture" w.tree none = .ok outs ∧
      outs.map (fun out => (out.outcome.ticker, out.outcome.complete)) = [("A", true)] ∧
      ∃ r ∈ w.tree.items, Undecoded r.item ∧ (∀ out ∈ outs, ¬ StructuredIn out r.item) ∧
        outs.flatMap (·.raw) = [] ∧ outs.flatMap (·.readErrors) = [] := by
  refine ⟨_, _, rfl, rfl, rfl, ⟨_, _, _⟩, List.mem_of_getElem? (i := 1) rfl, ⟨_, rfl⟩, ?_, rfl, rfl⟩
  intro out _ h
  exact h

end Snapevent
