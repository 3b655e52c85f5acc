/-!
# Sequence tracking

The sequence state machine of one subscription (`gap.rs`).  Addition is that of the unsigned 64-bit
type; after the largest sequence number the source's addition overflows, so a run that is reasoned
about stays below it.
-/

namespace Snapevent

/-- The classification of one sequenced message against the running sequence number. -/
inductive SeqVerdict
  | accept
  | duplicate
  | gap (lastSeq : Option UInt64) (observedSeq : UInt64)
  deriving DecidableEq, Repr

/-- The tracker of one `sid`. -/
structure SeqTracker where
  lastSeq : Option UInt64
  deriving DecidableEq, Repr

namespace SeqTracker

/-- A tracker with no baseline. -/
def new : SeqTracker := ⟨none⟩

/-- A snapshot re-baselines the tracker and is always accepted. -/
def onSnapshot (_ : SeqTracker) (seq : Option UInt64) : SeqTracker × SeqVerdict := (⟨seq⟩, .accept)

/-- A sequenced delta or trade. -/
def onSequenced (t : SeqTracker) (seq : UInt64) : SeqTracker × SeqVerdict :=
  match t.lastSeq with
  | none => (⟨some seq⟩, .accept)
  | some last =>
    if seq = last + 1 then (⟨some seq⟩, .accept)
    else if seq = last then (t, .duplicate)
    else (⟨some seq⟩, .gap (some last) seq)

end SeqTracker

end Snapevent
