import Mathlib.Data.String.Basic
import Snapevent.Lib.Lines

/-!
# UTF-8 texts

Texts as the bytes they are stored as.  What was cut off in the middle of a character is no text,
and stays none when a text is put after it.
-/

namespace Utf8

/-- The bytes of a text. -/
def bytes (cs : List Char) : List UInt8 := cs.flatMap String.utf8EncodeChar

/-- The text of some bytes. -/
def decode (bs : List UInt8) : Option String := String.fromUTF8? bs.toByteArray

variable {bs rest : List UInt8} {cs ds : List Char} {s : String}

@[simp] theorem bytes_nil : bytes [] = [] := rfl

theorem bytes_append (cs ds : List Char) : bytes (cs ++ ds) = bytes cs ++ bytes ds :=
  List.flatMap_append

theorem bytes_cons (c : Char) (cs : List Char) :
    bytes (c :: cs) = String.utf8EncodeChar c ++ bytes cs := List.flatMap_cons

theorem bytes_ne_nil (h : cs ≠ []) : bytes cs ≠ [] := by
  cases cs with
  | nil => exact absurd rfl h
  | cons c cs => simp [bytes_cons]

theorem toByteArray_bytes (cs : List Char) : (bytes cs).toByteArray = cs.utf8Encode := rfl

theorem toByteArray_injective {bs bs' : List UInt8} (h : bs.toByteArray = bs'.toByteArray) :
    bs = bs' := by
  have hdata := congrArg ByteArray.data h
  simpa using hdata

/-- The bytes of a text are read as the text. -/
theorem decode_bytes (cs : List Char) : decode (bytes cs) = some (String.ofList cs) := by
  rw [decode, String.fromUTF8?, toByteArray_bytes, dif_pos ByteArray.isValidUTF8_utf8Encode]
  rfl

theorem eq_bytes_of_isValidUTF8 (h : bs.toByteArray.IsValidUTF8) : ∃ cs, bs = bytes cs := by
  obtain ⟨cs, hcs⟩ := h
  exact ⟨cs, toByteArray_injective hcs⟩

/-- Bytes are read as a text exactly when they are its bytes. -/
theorem decode_eq_some_iff : decode bs = some s ↔ bs = bytes s.toList := by
  constructor
  · intro h
    by_cases hvalid : bs.toByteArray.IsValidUTF8
    · obtain ⟨cs, rfl⟩ := eq_bytes_of_isValidUTF8 hvalid
      rw [decode_bytes, Option.some.injEq] at h
      rw [← h, String.toList_ofList]
    · rw [decode, String.fromUTF8?, dif_neg hvalid] at h
      cases h
  · rintro rfl
    rw [decode_bytes, String.ofList_toList]

theorem prefix_of_bytes (h : bytes cs <+: bytes ds) : cs <+: ds := by
  obtain ⟨rest, hrest⟩ := h
  have harray := congrArg List.toByteArray hrest
  rw [List.toByteArray_append, toByteArray_bytes, toByteArray_bytes] at harray
  exact List.isPrefix_of_utf8Encode_append_eq_utf8Encode _ harray

theorem bytes_injective (h : bytes cs = bytes ds) : cs = ds := by
  have hdecode := congrArg decode h
  rw [decode_bytes, decode_bytes, Option.some.injEq] at hdecode
  exact String.ofList_injective hdecode

/-! ### Single-byte characters -/

theorem le_lead {mask : UInt8} (hmask : mask ∈ [0xc0, 0xe0, 0xf0]) (x : UInt8) :
    128 ≤ (x ||| mask).toNat := by
  have hor : mask.toNat ≤ (x ||| mask).toNat := by
    rw [UInt8.toNat_or]
    exact Nat.right_le_or
  have hle : ∀ m ∈ [(0xc0 : UInt8), 0xe0, 0xf0], 128 ≤ m.toNat := by simp
  exact le_trans (hle mask hmask) hor

theorem eq_ofNat_of_mem {b : UInt8} (hb : b.toNat < 128) {c : Char}
    (h : b ∈ String.utf8EncodeChar c) : c = Char.ofNat b.toNat := by
  have hmask : b &&& 0x80 = 0 := by
    have hall : ∀ n < 128, UInt8.ofNat n &&& 0x80 = 0 := by decide
    rw [← UInt8.ofNat_toNat (x := b)]
    exact hall _ hb
  obtain ⟨i, hi, hbi⟩ := List.mem_iff_getElem.1 h
  have hfirst : (String.utf8EncodeChar c)[i].IsUTF8FirstByte := by
    rw [hbi]
    exact Or.inl hmask
  have hzero : i = 0 := UInt8.isUTF8FirstByte_getElem_utf8EncodeChar.1 hfirst
  subst hzero
  rcases c.utf8Size_eq with hsize | hsize | hsize | hsize
  · have hchar : c.val.toUInt8 = b := by
      rw [← hbi]
      simp [String.utf8EncodeChar_eq_singleton hsize]
    have hcode : c.toNat < 128 := by
      rw [Char.utf8Size_eq_one_iff] at hsize
      exact Nat.lt_succ_of_le (UInt32.le_iff_toNat_le.1 hsize)
    have hnat : b.toNat = c.toNat := by
      rw [← hchar, UInt32.toNat_toUInt8]
      exact Nat.mod_eq_of_lt (by show c.toNat < 256; omega)
    rw [hnat, Char.ofNat_toNat]
  · exfalso
    simp only [String.utf8EncodeChar_eq_cons_cons hsize, List.getElem_cons_zero] at hbi
    have hlead := le_lead (by decide : (0xc0 : UInt8) ∈ _) ((c.val >>> 6).toUInt8 &&& 0x1f)
    rw [hbi] at hlead
    omega
  · exfalso
    simp only [String.utf8EncodeChar_eq_cons_cons_cons hsize, List.getElem_cons_zero] at hbi
    have hlead := le_lead (by decide : (0xe0 : UInt8) ∈ _) ((c.val >>> 12).toUInt8 &&& 0x0f)
    rw [hbi] at hlead
    omega
  · exfalso
    simp only [String.utf8EncodeChar_eq_cons_cons_cons_cons hsize, List.getElem_cons_zero] at hbi
    have hlead := le_lead (by decide : (0xf0 : UInt8) ∈ _) ((c.val >>> 18).toUInt8 &&& 0x07)
    rw [hbi] at hlead
    omega

theorem encode_ofNat {b : UInt8} (hb : b.toNat < 128) :
    String.utf8EncodeChar (Char.ofNat b.toNat) = [b] := by
  have hall : ∀ n < 128, String.utf8EncodeChar (Char.ofNat n) = [UInt8.ofNat n] := by decide
  rw [hall _ hb, UInt8.ofNat_toNat]

theorem exists_of_bytes_eq {b : UInt8} (hb : b.toNat < 128) (h : bytes cs = bs ++ b :: rest) :
    ∃ ds es, bs = bytes ds ∧ rest = bytes es ∧ cs = ds ++ Char.ofNat b.toNat :: es := by
  induction cs generalizing bs with
  | nil => simp at h
  | cons c cs ih =>
    rw [bytes_cons] at h
    rcases List.append_eq_append_iff.1 h with ⟨as, hbs, hcs⟩ | ⟨as, hc, has⟩
    · obtain ⟨ds, es, hds, hes, hsplit⟩ := ih hcs
      exact ⟨c :: ds, es, by rw [hbs, hds, bytes_cons], hes, by rw [hsplit]; rfl⟩
    · cases as with
      | nil =>
        have hcs : bytes cs = [] ++ b :: rest := by simpa using has.symm
        obtain ⟨ds, es, hds, hes, hsplit⟩ := ih hcs
        refine ⟨c :: ds, es, ?_, hes, by rw [hsplit]; rfl⟩
        rw [bytes_cons, ← hds, hc, List.append_nil, List.append_nil]
      | cons b' as =>
        rw [List.cons_append, List.cons.injEq] at has
        obtain ⟨rfl, hrest⟩ := has
        have hchar : c = Char.ofNat b.toNat := eq_ofNat_of_mem hb (by rw [hc]; simp)
        have hone : [b] = bs ++ b :: as := by rw [← hc, hchar, encode_ofNat hb]
        have hlength := congrArg List.length hone
        simp only [List.length_append, List.length_cons, List.length_nil] at hlength
        obtain rfl : bs = [] := List.eq_nil_of_length_eq_zero (by omega)
        obtain rfl : as = [] := List.eq_nil_of_length_eq_zero (by omega)
        exact ⟨[], cs, rfl, by simpa using hrest, by rw [hchar]; rfl⟩

theorem mem_of_mem_bytes {b : UInt8} (hb : b.toNat < 128) (h : b ∈ bytes cs) :
    Char.ofNat b.toNat ∈ cs := by
  obtain ⟨c, hc, hmem⟩ := List.mem_flatMap.1 h
  rwa [← eq_ofNat_of_mem hb hmem]

theorem visible_of_mem_bytes (h : ∀ c ∈ cs, 32 ≤ c.toNat) {b : UInt8} (hb : b ∈ bytes cs) :
    32 ≤ b.toNat := by
  by_contra hlt
  have hmem := h _ (mem_of_mem_bytes (by omega) hb)
  have hchar : ∀ n < 32, (Char.ofNat n).toNat = n := by decide
  rw [hchar _ (by omega)] at hmem
  exact hlt hmem

/-! ### Lines -/

section Separators

variable {nl cr : UInt8} (hnl : nl.toNat < 128) (hcr : cr.toNat < 128)

include hcr in
theorem chomp_bytes (line : List Char) :
    Lines.chomp cr (bytes line) = bytes (Lines.chomp (Char.ofNat cr.toNat) line) := by
  rcases List.eq_nil_or_concat line with rfl | ⟨line, c, rfl⟩
  · rfl
  · rw [List.concat_eq_append, Lines.chomp, Lines.chomp, List.getLast?_concat, List.dropLast_concat]
    have hbytes : bytes (line ++ [c]) = bytes line ++ String.utf8EncodeChar c := by
      rw [bytes_append, bytes_cons, bytes_nil, List.append_nil]
    by_cases hc : c = Char.ofNat cr.toNat
    · rw [hbytes, hc, encode_ofNat hcr, List.getLast?_concat, if_pos rfl, if_pos rfl,
        List.dropLast_concat]
    · have hne : String.utf8EncodeChar c ≠ [] := by simp
      have hlast : (bytes (line ++ [c])).getLast? ≠ some cr := by
        rw [hbytes, List.getLast?_append_of_ne_nil _ hne]
        exact fun hlast => hc (eq_ofNat_of_mem hcr (List.mem_of_getLast? hlast))
      rw [if_neg hlast, if_neg fun heq => hc (Option.some.inj heq)]

include hnl hcr

theorem splitFrom_bytes (line cs : List Char) :
    Lines.splitFrom nl cr (bytes line) (bytes cs) =
      (Lines.splitFrom (Char.ofNat nl.toNat) (Char.ofNat cr.toNat) line cs).map bytes := by
  induction cs generalizing line with
  | nil =>
    rw [bytes_nil, Lines.splitFrom, Lines.splitFrom]
    by_cases hline : line = []
    · rw [hline, if_pos rfl, if_pos bytes_nil]
      rfl
    · rw [if_neg hline, if_neg (bytes_ne_nil hline)]
      rfl
  | cons c cs ih =>
    rw [bytes_cons, Lines.splitFrom]
    by_cases hc : c = Char.ofNat nl.toNat
    · rw [if_pos hc, hc, encode_ofNat hnl, List.cons_append, List.nil_append, Lines.splitFrom,
        if_pos rfl, chomp_bytes hcr, List.map_cons]
      exact congrArg _ (ih [])
    · have hmem : nl ∉ String.utf8EncodeChar c := fun hmem => hc (eq_ofNat_of_mem hnl hmem)
      have hline : bytes line ++ String.utf8EncodeChar c = bytes (line ++ [c]) := by
        rw [bytes_append, bytes_cons, bytes_nil, List.append_nil]
      rw [if_neg hc, Lines.splitFrom_append_of_notMem hmem, hline, ih]

/-- The lines of a text are the lines of its bytes. -/
theorem split_bytes (cs : List Char) :
    Lines.split nl cr (bytes cs) =
      (Lines.split (Char.ofNat nl.toNat) (Char.ofNat cr.toNat) cs).map bytes :=
  splitFrom_bytes hnl hcr [] cs

end Separators

end Utf8
