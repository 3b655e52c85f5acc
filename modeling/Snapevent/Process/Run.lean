import Snapevent.Core.Units
import Snapevent.Lib.FoldM
import Snapevent.Store.StreamSet

/-!
# Processing a capture tree

The walk over the ticker directories (`process.rs`).  Each processed ticker is returned with the
tables it wrote; its outcome is part of them.
-/

namespace Snapevent

/-- The ticker subdirectories, sorted. -/
def discoverTickers (tree : Tree) : List String := tree.tickers

/-- Process one ticker directory of a tree. -/
def processTickerDir (tree : Tree) (ticker : String) : Except String (Option TickerOutput) :=
  processTicker ticker (tree.files ticker Channel.orderbook.str) (tree.files ticker Channel.trade.str)

/-- The tickers to process: a subset that must exist, or all. -/
def selectTickers (inDir : String) (discovered : List String) :
    Option (List String) → Except String (List String)
  | none => .ok discovered
  | some only => do
    for t in only do
      if !discovered.contains t then
        throw ("ticker " ++ debugText t ++ " not found under " ++ inDir ++ " (have: " ++
          String.intercalate ", " discovered ++ ")")
    return only

/-- Process all discovered tickers, or a subset of them. -/
def run (inDir : String) (tree : Tree) (only : Option (List String)) :
    Except String (List TickerOutput) := do
  let selected ← selectTickers inDir (discoverTickers tree) only
  selected.foldlM (fun outcomes ticker => do
    return outcomes ++ (← processTickerDir tree ticker).toList) []

/-- What a ticker directory yields. -/
def outputOf (tree : Tree) (ticker : String) : Option TickerOutput :=
  (processTickerDir tree ticker).toOption.join

/-- A successful run over a whole tree has processed every ticker directory. -/
theorem run_all {inDir : String} {tree : Tree} {outs : List TickerOutput}
    (h : run inDir tree none = .ok outs) :
    outs = (discoverTickers tree).filterMap (outputOf tree) ∧
      ∀ t ∈ discoverTickers tree, processTickerDir tree t = .ok (outputOf tree t) := by
  have hstep (acc : List TickerOutput) (t : String) (acc' : List TickerOutput)
      (ht : (do return acc ++ (← processTickerDir tree t).toList) = Except.ok (ε := String) acc') :
      processTickerDir tree t = .ok (outputOf tree t) ∧ acc' = acc ++ (outputOf tree t).toList := by
    obtain ⟨out, hout, ht⟩ := FoldM.bind_ok ht
    cases ht
    have hof : outputOf tree t = out := by rw [outputOf, hout]; rfl
    exact ⟨by rw [hof, hout], by rw [hof]⟩
  change (discoverTickers tree).foldlM _ [] = _ at h
  refine ⟨?_, FoldM.forall_mem (fun acc t acc' ht => (hstep acc t acc' ht).1) h⟩
  have hcollect : id outs = id [] ++ (discoverTickers tree).flatMap fun t =>
      (outputOf tree t).toList :=
    FoldM.collect (fun acc t acc' ht => (hstep acc t acc' ht).2) h
  rw [List.filterMap_eq_flatMap_toList]
  simpa using hcollect

end Snapevent
