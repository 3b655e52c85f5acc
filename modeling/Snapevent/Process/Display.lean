import Snapevent.Core.ParseUnits
import Snapevent.Process.Verify

/-!
# Printed quantities

The price and quantity texts of a mismatch detail are read back exactly by the parsers of the
units, and the separators of the detail occur in none of its parts, so a detail tells how many
levels differ on each side and the quantities of the first.
-/

namespace Snapevent

open Padded

/-! ## Reading back -/

theorem toList_toString (n : ℕ) : (toString n).toList = Nat.toDigits 10 n := by
  rw [Nat.toString_eq_ofList_toDigits, String.toList_ofList]

theorem toList_padZeros (width n : ℕ) : (padZeros width n).toList = padded width n := by
  rw [padZeros, String.toList_append, String.toList_ofList, padded, List.leftpad,
    ← toList_toString, String.length_toList]

theorem toList_fmtPriceMicro (p : UInt32) : (fmtPriceMicro p).toList =
    (Decimal.ofParts false 6 (p.toNat / 1000000) (p.toNat % 1000000)).text := by
  rw [fmtPriceMicro, Decimal.text_ofParts, String.toList_append, String.toList_append,
    toList_toString, toList_padZeros, List.append_assoc]
  rfl

theorem toList_fmtQtyCenti (q : Int64) : (fmtQtyCenti q).toList =
    (Decimal.ofParts (decide (q.toInt < 0)) 2 (q.toInt.natAbs / 100)
      (q.toInt.natAbs % 100)).text := by
  rw [fmtQtyCenti, Decimal.text_ofParts, String.toList_append, String.toList_append,
    String.toList_append, toList_toString, toList_padZeros, List.append_assoc, List.append_assoc]
  congr 1
  by_cases hneg : q.toInt < 0
  · rw [if_pos hneg, if_pos (decide_eq_true hneg)]
    rfl
  · rw [if_neg hneg, if_neg (by simpa using hneg)]
    rfl

theorem parse_fmtPriceMicro (p : UInt32) : MicroDollars.parse (fmtPriceMicro p) = .ok ⟨p⟩ := by
  have hfrac : p.toNat % 1000000 < 10 ^ 6 := Nat.mod_lt _ (by decide)
  have hplaces := Decimal.length_frac_ofParts false (p.toNat / 1000000) (by decide) hfrac
  rw [readsExactly_price.reads]
  refine ⟨_, toList_fmtPriceMicro p, hplaces.le, id, ?_⟩
  have hvalue : ((p.toNat : ℤ)) = signedInt false (p.toNat / 1000000 * 10 ^ 6 +
      p.toNat % 1000000) := by
    rw [signedInt, if_neg (by decide)]
    omega
  rw [Decimal.value_mul_int hplaces.le, Decimal.scaled_ofParts false _ (by decide) hfrac]
  exact_mod_cast hvalue

theorem parse_fmtQtyCenti (q : Int64) : QtyDelta.parse (fmtQtyCenti q) = .ok ⟨q⟩ := by
  have hfrac : q.toInt.natAbs % 100 < 10 ^ 2 := Nat.mod_lt _ (by decide)
  have hplaces := Decimal.length_frac_ofParts (decide (q.toInt < 0))
    (q.toInt.natAbs / 100) (by decide) hfrac
  rw [readsExactly_delta.reads]
  refine ⟨_, toList_fmtQtyCenti q, hplaces.le, fun _ => rfl, ?_⟩
  have hvalue : q.toInt = signedInt (decide (q.toInt < 0)) (q.toInt.natAbs / 100 * 10 ^ 2 +
      q.toInt.natAbs % 100) := by
    rw [signedInt]
    simp only [decide_eq_true_eq]
    omega
  rw [Decimal.value_mul_int hplaces.le, Decimal.scaled_ofParts _ _ (by decide) hfrac]
  exact_mod_cast hvalue

theorem injective_fmtPriceMicro : Function.Injective fmtPriceMicro := by
  intro p p' h
  have hread := parse_fmtPriceMicro p
  rw [h, parse_fmtPriceMicro] at hread
  cases hread
  rfl

theorem injective_fmtQtyCenti : Function.Injective fmtQtyCenti := by
  intro q q' h
  have hread := parse_fmtQtyCenti q
  rw [h, parse_fmtQtyCenti] at hread
  cases hread
  rfl

/-! ## Separators -/

theorem eq_of_append_cons {e : Char} {as bs xs ys : List Char} (ha : e ∉ as) (hb : e ∉ bs)
    (h : as ++ e :: xs = bs ++ e :: ys) : as = bs ∧ xs = ys := by
  have hsplit : splitOnce e (as ++ e :: xs) = some (as, xs) := splitOnce_append ha
  rw [h, splitOnce_append hb] at hsplit
  cases hsplit
  exact ⟨rfl, rfl⟩

theorem notMem_toDigits {e : Char} (he : e.isDigit = false) (n : ℕ) : e ∉ Nat.toDigits 10 n := by
  intro hmem
  rw [Nat.isDigit_of_mem_toDigits (by decide) (by decide) hmem] at he
  cases he

/-! ## The levels of an observation -/

theorem toList_toString_int (n : ℤ) : (toString n).toList =
    (if n < 0 then ['-'] else []) ++ Nat.toDigits 10 n.natAbs := by
  rw [Int.toString_eq_repr, Int.repr_eq_if]
  by_cases hneg : n < 0
  · rw [if_neg (by omega), if_pos hneg, String.toList_append, ← Nat.toString_eq_repr,
      toList_toString, show (-n).toNat = n.natAbs by omega]
    rfl
  · rw [if_pos (by omega), if_neg hneg, ← Nat.toString_eq_repr, toList_toString,
      show n.toNat = n.natAbs by omega]
    rfl

theorem injective_toDigits : Function.Injective (Nat.toDigits 10) := by
  intro n n' h
  have hread := congrArg (fun ds => Nat.ofDigitChars 10 ds 0) h
  simpa only [Nat.ofDigitChars_ten_toDigits] using hread

theorem injective_toString_int : Function.Injective (toString : ℤ → String) := by
  have hsign (m n : ℕ) : Nat.toDigits 10 m ≠ '-' :: Nat.toDigits 10 n := by
    intro h
    have hminus : '-' ∉ Nat.toDigits 10 m := notMem_toDigits (by decide) m
    exact hminus (by simp [h])
  intro n n' h
  have hlist := congrArg String.toList h
  rw [toList_toString_int, toList_toString_int] at hlist
  split_ifs at hlist
  · have := injective_toDigits (List.append_cancel_left hlist)
    omega
  · exact absurd hlist.symm (hsign _ _)
  · exact absurd hlist (hsign _ _)
  · have := injective_toDigits hlist
    omega

/-- The text of a level up to its closing bracket. -/
def levelChars (l : UInt32 × Int64) : List Char :=
  '[' :: (Nat.toDigits 10 l.1.toNat ++ ',' :: (toString l.2.toInt).toList)

theorem injective_levelChars : Function.Injective levelChars := by
  intro l l' h
  have hcomma := notMem_toDigits (e := ',') (by decide)
  obtain ⟨hprice, hquantity⟩ := eq_of_append_cons (hcomma _) (hcomma _) (List.cons.inj h).2
  have hprice := UInt32.toNat_inj.1 (injective_toDigits hprice)
  have hquantity := Int64.toInt_inj.1 (injective_toString_int (String.toList_inj.1 hquantity))
  exact Prod.ext hprice hquantity

theorem notMem_levelChars (l : UInt32 × Int64) : ']' ∉ levelChars l := by
  have hdigits := notMem_toDigits (e := ']') (by decide)
  rw [levelChars, toList_toString_int]
  split_ifs <;> simp [hdigits]

/-- The levels of a side as its text lists them. -/
def sideChars (levels : List (UInt32 × Int64)) : List Char :=
  List.intercalate [','] (levels.map fun l => levelChars l ++ [']'])

theorem sideChars_cons (l : UInt32 × Int64) (levels : List (UInt32 × Int64)) :
    sideChars (l :: levels) = levelChars l ++ ']' :: match levels with
      | [] => []
      | _ :: _ => ',' :: sideChars levels := by
  cases levels with
  | nil => rw [sideChars, List.map_singleton, List.intercalate_singleton]
  | cons l' levels =>
    rw [sideChars, List.map_cons, List.map_cons, List.intercalate_cons_cons]
    simp only [List.append_assoc, List.cons_append, List.nil_append]
    rfl

theorem injective_sideChars : Function.Injective sideChars := by
  intro levels
  induction levels with
  | nil =>
    intro levels' h
    cases levels' with
    | nil => rfl
    | cons l' levels' =>
      rw [sideChars_cons] at h
      cases h
  | cons l levels ih =>
    intro levels' h
    cases levels' with
    | nil =>
      rw [sideChars_cons] at h
      cases h
    | cons l' levels' =>
      rw [sideChars_cons, sideChars_cons] at h
      obtain ⟨hl, hrest⟩ := eq_of_append_cons (notMem_levelChars l) (notMem_levelChars l') h
      rw [injective_levelChars hl]
      congr 1
      cases levels with
      | nil =>
        cases levels' with
        | nil => rfl
        | cons => cases hrest
      | cons =>
        cases levels' with
        | nil => cases hrest
        | cons => exact ih (List.cons.inj hrest).2

theorem toList_levelsJson (levels : List (UInt32 × Int64)) :
    (levelsJson levels).toList = '[' :: (sideChars levels ++ [']']) := by
  have hlevel (l : UInt32 × Int64) :
      ("[" ++ toString l.1.toNat ++ "," ++ toString l.2.toInt ++ "]").toList =
        levelChars l ++ [']'] := by
    simp only [String.toList_append, toList_toString, levelChars, List.append_assoc,
      List.cons_append]
    rfl
  rw [levelsJson, String.toList_append, String.toList_append, String.toList_intercalate,
    List.map_map, sideChars]
  simp only [Function.comp_def, hlevel]
  rfl

theorem injective_levelsJson : Function.Injective levelsJson := by
  intro levels levels' h
  have hlist := congrArg String.toList h
  rw [toList_levelsJson, toList_levelsJson] at hlist
  exact injective_sideChars (List.append_cancel_right (List.cons.inj hlist).2)

/-! ## The details -/

theorem notMem_fmtPriceMicro {e : Char} (he : e.isDigit = false) (hpoint : e ≠ '.')
    (hsign : e ≠ '-') (p : UInt32) : e ∉ (fmtPriceMicro p).toList := by
  rw [toList_fmtPriceMicro]
  exact Decimal.notMem_text he hpoint hsign

theorem notMem_fmtQtyCenti {e : Char} (he : e.isDigit = false) (hpoint : e ≠ '.')
    (hsign : e ≠ '-') (q : Int64) : e ∉ (fmtQtyCenti q).toList := by
  rw [toList_fmtQtyCenti]
  exact Decimal.notMem_text he hpoint hsign

theorem notMem_fmtSideValue {e : Char} (he : e.isDigit = false) (hpoint : e ≠ '.')
    (hsign : e ≠ '-') (habsent : e ∉ "absent".toList) (v : Option Int64) :
    e ∉ (fmtSideValue v).toList := by
  cases v with
  | none => exact habsent
  | some q => exact notMem_fmtQtyCenti he hpoint hsign q

theorem injective_fmtSideValue : Function.Injective fmtSideValue := by
  have habsent (q : Int64) : fmtSideValue (some q) ≠ fmtSideValue none := by
    intro h
    have hletter : 'a' ∉ (fmtQtyCenti q).toList :=
      notMem_fmtQtyCenti (by decide) (by decide) (by decide) q
    have htext : fmtQtyCenti q = "absent" := h
    rw [htext] at hletter
    exact hletter (by decide)
  intro v v' h
  cases v with
  | none =>
    cases v' with
    | none => rfl
    | some q' => exact absurd h.symm (habsent q')
  | some q =>
    cases v' with
    | none => exact absurd h (habsent q)
    | some q' => rw [injective_fmtQtyCenti h]

/-- What a side's detail says of the first difference. -/
def firstDetail : Option (UInt32 × Option Int64 × Option Int64) → String
  | none => ""
  | some (p, ourQty, restQty) => " (first at " ++ fmtPriceMicro p ++ ": ours " ++
      fmtSideValue ourQty ++ " vs rest " ++ fmtSideValue restQty ++ ")"

@[simp] theorem firstDetail_none : firstDetail none = "" := rfl

@[simp] theorem firstDetail_some (d : UInt32 × Option Int64 × Option Int64) :
    firstDetail (some d) = " (first at " ++ fmtPriceMicro d.1 ++ ": ours " ++
      fmtSideValue d.2.1 ++ " vs rest " ++ fmtSideValue d.2.2 ++ ")" := rfl

theorem sideDetail_eq (label : String) (ours rest : List (UInt32 × Int64)) :
    sideDetail label ours rest = label ++ ": " ++ toString (sideDiff ours rest).length ++
      " level(s) differ" ++ firstDetail (sideDiff ours rest).head? := by
  have hnone : ": 0 level(s) differ" = ": " ++ (toString 0 ++ (" level(s) differ" ++ "")) := rfl
  have hjoin : " level(s) differ (first at " = " level(s) differ" ++ " (first at " := rfl
  rw [sideDetail]
  cases sideDiff ours rest with
  | nil =>
    simp only [hnone, List.length_nil, List.head?_nil, firstDetail_none, String.append_assoc]
  | cons d diffs =>
    simp only [hjoin, List.length_cons, List.head?_cons, firstDetail_some, String.append_assoc]

theorem toList_firstDetail (p : UInt32) (ourQty restQty : Option Int64) :
    (firstDetail (some (p, ourQty, restQty))).toList = " (first at ".toList ++
      ((fmtPriceMicro p).toList ++ ':' :: (" ours ".toList ++
        ((fmtSideValue ourQty).toList ++ ' ' :: ("vs rest ".toList ++
          ((fmtSideValue restQty).toList ++ [')']))))) := by
  simp only [firstDetail_some, String.toList_append, List.append_assoc]
  rfl

theorem injective_firstDetail : Function.Injective firstDetail := by
  have hnone (d : UInt32 × Option Int64 × Option Int64) :
      firstDetail (some d) ≠ firstDetail none := by
    intro h
    have hlist := congrArg String.toList h
    rw [toList_firstDetail] at hlist
    cases hlist
  intro first first' h
  cases first with
  | none =>
    cases first' with
    | none => rfl
    | some d' => exact absurd h.symm (hnone d')
  | some d =>
    cases first' with
    | none => exact absurd h (hnone d)
    | some d' =>
      have hlist := congrArg String.toList h
      rw [toList_firstDetail, toList_firstDetail, List.append_cancel_left_eq] at hlist
      have hcolon (p : UInt32) : ':' ∉ (fmtPriceMicro p).toList :=
        notMem_fmtPriceMicro (by decide) (by decide) (by decide) p
      have hspace (v : Option Int64) : ' ' ∉ (fmtSideValue v).toList :=
        notMem_fmtSideValue (by decide) (by decide) (by decide) (by decide) v
      obtain ⟨hprice, hlist⟩ := eq_of_append_cons (hcolon _) (hcolon _) hlist
      rw [List.append_cancel_left_eq] at hlist
      obtain ⟨hours, hlist⟩ := eq_of_append_cons (hspace _) (hspace _) hlist
      rw [List.append_cancel_left_eq, List.append_cancel_right_eq] at hlist
      rw [String.toList_inj] at hprice hours hlist
      exact congrArg some (Prod.ext (injective_fmtPriceMicro hprice)
        (Prod.ext (injective_fmtSideValue hours) (injective_fmtSideValue hlist)))

theorem toList_sideDetail (label : String) (ours rest : List (UInt32 × Int64)) :
    (sideDetail label ours rest).toList = label.toList ++ (": ".toList ++
      (Nat.toDigits 10 (sideDiff ours rest).length ++ ' ' :: ("level(s) differ".toList ++
        (firstDetail (sideDiff ours rest).head?).toList))) := by
  rw [sideDetail_eq]
  simp only [String.toList_append, List.append_assoc, toList_toString]
  rfl

/-- A side's detail determines the number of differences and the first of them. -/
theorem eq_of_sideDetail {label : String} {ours rest ours' rest' : List (UInt32 × Int64)}
    (h : sideDetail label ours rest = sideDetail label ours' rest') :
    (sideDiff ours rest).length = (sideDiff ours' rest').length ∧
      (sideDiff ours rest).head? = (sideDiff ours' rest').head? := by
  have hlist := congrArg String.toList h
  have hspace := notMem_toDigits (e := ' ') (by decide)
  rw [toList_sideDetail, toList_sideDetail, List.append_cancel_left_eq,
    List.append_cancel_left_eq] at hlist
  obtain ⟨hcount, hlist⟩ := eq_of_append_cons (hspace _) (hspace _) hlist
  rw [List.append_cancel_left_eq, String.toList_inj] at hlist
  have hlength := congrArg (fun ds => Nat.ofDigitChars 10 ds 0) hcount
  simp only [Nat.ofDigitChars_ten_toDigits] at hlength
  exact ⟨hlength, injective_firstDetail hlist⟩

theorem semicolon_notMem_sideDetail {label : String} (hlabel : ';' ∉ label.toList)
    (ours rest : List (UInt32 × Int64)) : ';' ∉ (sideDetail label ours rest).toList := by
  have hdigits := notMem_toDigits (e := ';') (by decide) (sideDiff ours rest).length
  have hprice := notMem_fmtPriceMicro (e := ';') (by decide) (by decide) (by decide)
  have hvalue := notMem_fmtSideValue (e := ';') (by decide) (by decide) (by decide) (by decide)
  have hfirst : ';' ∉ (firstDetail (sideDiff ours rest).head?).toList := by
    cases (sideDiff ours rest).head? with
    | none => decide
    | some d =>
      rw [toList_firstDetail]
      simp [hprice, hvalue]
  rw [toList_sideDetail]
  simp [hlabel, hdigits, hfirst]

/-! ## The differences -/

theorem getElem?_ofList_toList (map : Levels) (p : UInt32) :
    (Std.ExtTreeMap.ofList map.toList : Levels)[p]? = map[p]? := by
  cases hp : map[p]? with
  | some q =>
    refine Std.ExtTreeMap.getElem?_ofList_of_mem (Std.ReflCmp.compare_self) ?_
      (Std.ExtTreeMap.mem_toList_iff_getElem?_eq_some.2 hp)
    exact Std.ExtTreeMap.ordered_keys_toList.imp fun h heq => by rw [h] at heq; cases heq
  | none =>
    apply Std.ExtTreeMap.getElem?_ofList_of_contains_eq_false
    rw [← Bool.not_eq_true, List.contains_iff_mem, List.mem_map]
    rintro ⟨⟨p', q⟩, hmem, rfl⟩
    rw [Std.ExtTreeMap.mem_toList_iff_getElem?_eq_some, hp] at hmem
    cases hmem

/-- The differences of two sides are the prices at which their quantities differ, each with both
quantities. -/
theorem mem_sideDiff (ours rest : Levels) (p : UInt32) (ourQty restQty : Option Int64) :
    (p, ourQty, restQty) ∈ sideDiff ours.toList rest.toList ↔
      ourQty = ours[p]? ∧ restQty = rest[p]? ∧ ourQty ≠ restQty := by
  simp only [sideDiff, List.mem_filter, List.mem_map, List.mem_insertionSort, List.mem_dedup,
    getElem?_ofList_toList, decide_eq_true_eq, Prod.mk.injEq]
  constructor
  · rintro ⟨⟨p', -, rfl, rfl, rfl⟩, hne⟩
    exact ⟨rfl, rfl, hne⟩
  · rintro ⟨rfl, rfl, hne⟩
    refine ⟨⟨p, ?_, rfl, rfl, rfl⟩, hne⟩
    by_cases hours : ours[p]? = none
    · obtain ⟨q, hq⟩ := Option.ne_none_iff_exists'.1 fun hrest => hne (hours.trans hrest.symm)
      exact ⟨(p, q), List.mem_append_right _
        (Std.ExtTreeMap.mem_toList_iff_getElem?_eq_some.2 hq), rfl⟩
    · obtain ⟨q, hq⟩ := Option.ne_none_iff_exists'.1 hours
      exact ⟨(p, q), List.mem_append_left _
        (Std.ExtTreeMap.mem_toList_iff_getElem?_eq_some.2 hq), rfl⟩

theorem sideDiff_sorted (ours rest : List (UInt32 × Int64)) :
    (sideDiff ours rest).Pairwise fun d d' => d.1 < d'.1 := by
  have hnodup := (List.perm_insertionSort (· ≤ ·) ((ours ++ rest).map (·.1)).dedup).nodup_iff.2
    (List.nodup_dedup _)
  have hsorted := List.pairwise_insertionSort (· ≤ ·) ((ours ++ rest).map (·.1)).dedup
  apply List.Pairwise.filter
  rw [List.pairwise_map]
  exact (hsorted.and hnodup).imp fun h => UInt32.lt_of_le_of_ne h.1 h.2

/-- Prices and quantities are read back from their texts, and no two of them have the same text.  The
differences of two sides are exactly the prices at which their quantities differ, ascending, with
both quantities; and a mismatch detail determines, for each side, how many there are and the first
of them. -/
theorem display_parse_inverse :
    (∀ p : UInt32, MicroDollars.parse (fmtPriceMicro p) = .ok ⟨p⟩) ∧
    (∀ q : Int64, QtyDelta.parse (fmtQtyCenti q) = .ok ⟨q⟩) ∧
    Function.Injective fmtPriceMicro ∧ Function.Injective fmtQtyCenti ∧
    (∀ ours rest : Levels,
      (sideDiff ours.toList rest.toList).Pairwise (fun d d' => d.1 < d'.1) ∧
      ∀ p ourQty restQty, (p, ourQty, restQty) ∈ sideDiff ours.toList rest.toList ↔
        ourQty = ours[p]? ∧ restQty = rest[p]? ∧ ourQty ≠ restQty) ∧
    ∀ ours rest ours' rest' : State,
      mismatchDetail ours rest = mismatchDetail ours' rest' ↔
        ((sideDiff ours.1 rest.1).length = (sideDiff ours'.1 rest'.1).length ∧
          (sideDiff ours.1 rest.1).head? = (sideDiff ours'.1 rest'.1).head?) ∧
        (sideDiff ours.2 rest.2).length = (sideDiff ours'.2 rest'.2).length ∧
          (sideDiff ours.2 rest.2).head? = (sideDiff ours'.2 rest'.2).head? := by
  refine ⟨parse_fmtPriceMicro, parse_fmtQtyCenti, injective_fmtPriceMicro, injective_fmtQtyCenti,
    fun ours rest => ⟨sideDiff_sorted _ _, mem_sideDiff ours rest⟩,
    fun ours rest ours' rest' => ⟨fun h => ?_, fun h => ?_⟩⟩
  · have hsides (yes no : String) : (yes ++ "; " ++ no).toList =
        yes.toList ++ ';' :: (' ' :: no.toList) := by
      rw [String.append_assoc, String.toList_append, String.toList_append]
      rfl
    have hlist := congrArg String.toList h
    rw [mismatchDetail, mismatchDetail, hsides, hsides] at hlist
    obtain ⟨hyes, hno⟩ := eq_of_append_cons (semicolon_notMem_sideDetail (by decide) _ _)
      (semicolon_notMem_sideDetail (by decide) _ _) hlist
    exact ⟨eq_of_sideDetail (String.toList_inj.1 hyes),
      eq_of_sideDetail (String.toList_inj.1 (List.cons.inj hno).2)⟩
  · obtain ⟨⟨hyes, hyes'⟩, hno, hno'⟩ := h
    rw [mismatchDetail, mismatchDetail, sideDetail_eq, sideDetail_eq, sideDetail_eq,
      sideDetail_eq, hyes, hyes', hno, hno']

end Snapevent
