import Snapevent.Core.Value
import Snapevent.Lib.FoldM
import Snapevent.Lib.JsonBytes
import Snapevent.Lib.TornLog

/-!
# The backfill checkpoint

The log of completed tickers (`backfill.rs`): the line a run appends to it, and the tickers a resumed
run finds in it.  Lines are appended wherever the log ends, so a line that was torn by a crash runs
into the next one.
-/

namespace Snapevent

/-- The line of a ticker and the number of its trades. -/
def checkpointLine (ticker : String) (trades : UInt64) : List UInt8 :=
  let line := Value.object [("ticker", .string ticker), ("trades", .number (.posInt trades))]
  Utf8.bytes line.text.toList

/-- The tickers of a checkpoint log.  A missing file is an empty one; a file that is no text holds
none. -/
def loadCheckpoint (lib : JsonLib) (file : List UInt8) : List String :=
  match Utf8.decode file with
  | none => []
  | some content => (Lines.split '\n' '\r' content.toList).filterMap fun line =>
    match lib.parse (String.ofList line) with
    | .ok v => (v.get "ticker").bind Value.asStr
    | .error _ => none

/-! ## One line -/

section Line

variable (ticker : String) (trades : UInt64)

theorem checkpointLine_eq : checkpointLine ticker trades =
    Utf8.bytes (Json.object (("ticker", .string ticker) ::
      [("trades", .number (.ofNat trades.toNat))])).print := by
  simp only [checkpointLine, Value.text, String.toList_ofList, Value.json, Value.jsonMembers,
    Number.json]

theorem checkpointLine_ne_nil : checkpointLine ticker trades ≠ [] := by
  obtain ⟨rest, hrest⟩ := Json.head_bytes_object (("ticker", .string ticker) ::
    [("trades", .number (.ofNat trades.toNat))])
  rw [checkpointLine_eq, hrest]
  exact List.cons_ne_nil _ _

theorem visible_checkpointLine {b : UInt8} (hb : b ∈ checkpointLine ticker trades) :
    32 ≤ b.toNat := by
  rw [checkpointLine_eq] at hb
  exact Utf8.visible_of_mem_bytes (Json.print_visible _) hb

theorem notMem_checkpointLine {b : UInt8} (hb : b.toNat < 32) : b ∉ checkpointLine ticker trades := by
  intro hmem
  have hvisible := visible_checkpointLine ticker trades hmem
  omega

/-- A whole line is read as its ticker. -/
theorem parse_checkpointLine (lib : JsonLib) {text : List Char}
    (h : Utf8.bytes text = checkpointLine ticker trades) :
    ∃ v, lib.parse (String.ofList text) = .ok v ∧
      (v.get "ticker").bind Value.asStr = some ticker := by
  rw [checkpointLine] at h
  rw [Utf8.bytes_injective h, String.ofList_toList, JsonLib.parse_text]
  · exact ⟨_, rfl, rfl⟩
  · refine ⟨?_, trivial, trivial, trivial⟩
    refine List.pairwise_cons.2 ⟨?_, List.pairwise_singleton _ _⟩
    simp only [List.mem_singleton, forall_eq]
    decide
  · show 1 ≤ nestingLimit
    decide

end Line

/-! ## Torn lines -/

/-- A part of a checkpoint line; a whole one is that of a ticker for which `Q` holds. -/
def CheckpointPart (Q : String → Prop) (part : List UInt8) : Prop :=
  part ≠ [] ∧ ∃ ticker trades, part <+: checkpointLine ticker trades ∧
    (part = checkpointLine ticker trades → Q ticker)

/-- A checkpoint log whose whole lines are those of tickers for which `Q` holds. -/
abbrev CheckpointLog (Q : String → Prop) (file : List UInt8) : Prop :=
  TornLog.Log 123 10 13 (CheckpointPart Q) file

variable {Q : String → Prop} {file : List UInt8} {ticker : String}

theorem checkpointParts (Q : String → Prop) : TornLog.Parts 123 10 13 (CheckpointPart Q) where
  head := by
    rintro part ⟨hne, ticker, trades, hpart, -⟩
    rw [checkpointLine_eq] at hpart
    exact Json.head_of_part hpart hne
  nl_notMem := by
    rintro part ⟨-, ticker, trades, hpart, -⟩ hmem
    exact notMem_checkpointLine ticker trades (by decide) (hpart.subset hmem)
  cr_notMem := by
    rintro part ⟨-, ticker, trades, hpart, -⟩ hmem
    exact notMem_checkpointLine ticker trades (by decide) (hpart.subset hmem)

/-- The log after the first bytes of an ended line; the line counts when all of its text is
there. -/
theorem CheckpointLog.append (h : CheckpointLog Q file) (trades : UInt64) (n : ℕ)
    (hQ : (checkpointLine ticker trades).length ≤ n → Q ticker) :
    CheckpointLog Q (file ++ (checkpointLine ticker trades ++ [10]).take n) := by
  by_cases hlt : (checkpointLine ticker trades).length < n
  · rw [List.take_of_length_le (by rw [List.length_append]; exact hlt)]
    exact TornLog.Log.write (checkpointParts Q)
      ⟨checkpointLine_ne_nil ticker trades, ticker, trades, List.prefix_refl _,
        fun _ => hQ hlt.le⟩ h
  · rw [not_lt] at hlt
    rw [List.take_append_of_le_length hlt]
    by_cases hnil : (checkpointLine ticker trades).take n = []
    · rw [hnil, List.append_nil]
      exact h
    · refine TornLog.Log.tear (checkpointParts Q)
        ⟨hnil, ticker, trades, List.take_prefix _ _, fun hfull => hQ ?_⟩ h
      have hlength := congrArg List.length hfull
      rw [List.length_take] at hlength
      omega

/-- The first bytes of an ended line hold the line when all of its text is there. -/
theorem mem_split_take (ticker : String) (trades : UInt64) {n : ℕ}
    (h : (checkpointLine ticker trades).length ≤ n) :
    checkpointLine ticker trades ∈
      Lines.split 10 13 ((checkpointLine ticker trades ++ [10]).take n) := by
  have hnl : 10 ∉ checkpointLine ticker trades := notMem_checkpointLine ticker trades (by decide)
  have hcr : 13 ∉ checkpointLine ticker trades := notMem_checkpointLine ticker trades (by decide)
  have hne := checkpointLine_ne_nil ticker trades
  rcases h.lt_or_eq with hlt | heq
  · rw [List.take_of_length_le (by rw [List.length_append]; exact hlt),
      Lines.split_line ⟨hnl, fun hlast => hcr (List.mem_of_getLast? hlast)⟩]
    exact List.mem_cons_self
  · rw [List.take_append_of_le_length heq.ge, ← heq, List.take_length, Lines.split_part hnl hne]
    exact List.mem_cons_self

/-- A line that is read as a ticker is a whole line. -/
theorem of_piece (lib : JsonLib) {text : List Char} {v : Value}
    (h : TornLog.Piece 123 10 13 (CheckpointPart Q) (Utf8.bytes text))
    (hparse : lib.parse (String.ofList text) = .ok v)
    (hv : (v.get "ticker").bind Value.asStr = some ticker) : Q ticker := by
  obtain ⟨before, part, htext, ⟨hne, ticker', trades, hpart, hwhole⟩, hbefore⟩ := h.split
  have hread (hnone : Json.parse text = none) : False := by
    rw [JsonLib.parse, String.toList_ofList, Json.parseWithin_of_parse_eq_none hnone] at hparse
    cases hparse
  rcases hbefore with rfl | hbefore
  · by_cases hfull : part = checkpointLine ticker' trades
    · obtain ⟨v', hparse', hv'⟩ := parse_checkpointLine ticker' trades lib (htext.trans hfull)
      rw [hparse] at hparse'
      cases hparse'
      rw [hv] at hv'
      cases hv'
      exact hwhole hfull
    · rw [checkpointLine_eq] at hpart hfull
      exact (hread (Json.parse_part hpart hfull htext.symm)).elim
  · rw [checkpointLine_eq] at hpart
    exact (hread (Json.parse_merged (k := "ticker") rfl rfl _ hbefore hpart hne htext.symm)).elim

theorem CheckpointLog.of_mem {lib : JsonLib} (h : CheckpointLog Q file)
    (hmem : ticker ∈ loadCheckpoint lib file) : Q ticker := by
  unfold loadCheckpoint at hmem
  split at hmem
  · cases hmem
  · rename_i content hdecode
    obtain ⟨line, hline, hticker⟩ := List.mem_filterMap.1 hmem
    rw [Utf8.decode_eq_some_iff] at hdecode
    have hbytes : Utf8.bytes line ∈ Lines.split 10 13 file := by
      rw [hdecode, Utf8.split_bytes (by decide) (by decide)]
      exact List.mem_map_of_mem hline
    split at hticker
    · rename_i v hparse
      exact of_piece lib (h.piece_of_mem hbytes) hparse hticker
    · cases hticker

/-- A ticker that has a line of its own is found, when the file is a text. -/
theorem mem_loadCheckpoint (lib : JsonLib) (htext : ∃ cs, file = Utf8.bytes cs) {trades : UInt64}
    (hline : checkpointLine ticker trades ∈ Lines.split 10 13 file) :
    ticker ∈ loadCheckpoint lib file := by
  obtain ⟨cs, rfl⟩ := htext
  rw [Utf8.split_bytes (by decide) (by decide)] at hline
  obtain ⟨line, hmem, hbytes⟩ := List.mem_map.1 hline
  obtain ⟨v, hparse, hv⟩ := parse_checkpointLine ticker trades lib hbytes
  rw [loadCheckpoint, Utf8.decode_bytes]
  dsimp only
  rw [String.toList_ofList]
  refine List.mem_filterMap.2 ⟨line, hmem, ?_⟩
  rw [hparse]
  exact hv

end Snapevent
