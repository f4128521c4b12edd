import FlatSql.Text.Utf8
import Mathlib.Tactic.Common
import Mathlib.Tactic.IntervalCases

/-!
# The bytes of texts

UTF-8 was made so that comparing encoded texts byte by byte is comparing their code points: a longer
encoding starts with a greater byte, and within one length the bytes are the digits of the code
point. So a list of names in ascending order is in ascending order of bytes too, whoever reads it.

It was also made so that a reader knows from the first byte of a character how many follow. The
lossy decoder is held to that: it gives back every text from its bytes, so nothing that is well
formed is ever replaced. The argument goes character by character with any bytes behind, since
between two characters the decoder holds nothing.

## Main results

* `Utf8.encode_lt` — the bytes of a lesser text are less
* `Utf8.decodeFrom_encodeChar` — one character is read and what follows it is read afresh
* `Utf8.decodeLossy_encode` — the bytes of a text are read as the text
* `Utf8.decodeLossy_of_decode?` — lossy decoding agrees with strict decoding where that succeeds
-/

namespace FlatSql

namespace Utf8

theorem encode_eq_flatMap (s : String) : encode s = s.toList.flatMap String.utf8EncodeChar := by
  rw [encode, String.toUTF8_eq_toByteArray, ← String.utf8Encode_toList]
  simp [List.utf8Encode]

/-- Code points stop before 0x110000 and leave out the surrogates. This is why some second bytes
have narrower bounds than the others. -/
theorem codePoint_bounds (c : Char) :
    c.val.toNat < 0xD800 ∨ 0xDFFF < c.val.toNat ∧ c.val.toNat < 0x110000 := by
  have hv := c.valid
  simpa only [UInt32.isValidChar, Nat.isValidChar] using hv

/-! ### Order -/

/-- The bytes of a lesser character are less, whatever follows. Comparing texts by bytes then is
comparing them by characters. -/
theorem encodeChar_lt {c d : Char} (h : c < d) (xs ys : List UInt8) :
    String.utf8EncodeChar c ++ xs < String.utf8EncodeChar d ++ ys := by
  have hlt : c.val.toNat < d.val.toNat := h
  have hmax := codePoint_bounds d
  simp only [String.utf8EncodeChar]
  generalize c.val.toNat = m at *
  generalize d.val.toNat = n at *
  -- the quotients are digits in base 64 of one number, which `omega` does not see by itself
  have hm : m / 64 / 64 = m / 4096 ∧ m / 4096 / 64 = m / 262144 :=
    ⟨Nat.div_div_eq_div_mul .., Nat.div_div_eq_div_mul ..⟩
  have hn : n / 64 / 64 = n / 4096 ∧ n / 4096 / 64 = n / 262144 :=
    ⟨Nat.div_div_eq_div_mul .., Nat.div_div_eq_div_mul ..⟩
  repeat' split
  all_goals
    simp (disch := omega) only [List.cons_append, List.nil_append, List.cons_lt_cons_iff,
      UInt8.lt_iff_toNat_lt, ← UInt8.toNat_inj, UInt8.toNat_ofNat', Nat.reducePow,
      Nat.mod_eq_of_lt]
    omega

theorem flatMap_encodeChar_lt {cs ds : List Char} (h : cs < ds) :
    cs.flatMap String.utf8EncodeChar < ds.flatMap String.utf8EncodeChar := by
  induction h with
  | @nil d ds =>
    rw [List.flatMap_nil, List.flatMap_cons]
    cases hd : String.utf8EncodeChar d with
    | nil => exact absurd hd String.utf8EncodeChar_ne_nil
    | cons b bs => exact List.nil_lt_cons ..
  | rel h =>
    rw [List.flatMap_cons, List.flatMap_cons]
    exact encodeChar_lt h _ _
  | cons _ ih =>
    rw [List.flatMap_cons, List.flatMap_cons]
    exact List.append_left_lt ih

/-- **The bytes of a lesser text are less.** The converse follows, since both orders are total and
no two texts have the same bytes. -/
theorem encode_lt {s s' : String} (h : s < s') : encode s < encode s' := by
  rw [encode_eq_flatMap, encode_eq_flatMap]
  exact flatMap_encodeChar_lt (String.lt_iff.mp h)

/-! ### Lossy decoding

What a byte of a character leaves pending is said for the bits that it carries, so that the bits of
a code point are put together again without a word about bytes. Among the characters of three bytes,
and among those of four, the first and the last lead byte allow fewer bytes behind them; there the
bounds are told by `if`. -/

section Bytes

variable {m low high code owed : Nat} (bs : List UInt8)

theorem toNat_ofNat_of_lt (h : m < 256) : (UInt8.ofNat m).toNat = m := by
  rw [UInt8.toNat_ofNat', Nat.mod_eq_of_lt h]

theorem decodeFrom_one (h : m < 0x80) :
    decodeFrom none (UInt8.ofNat m :: bs) = Char.ofNat m :: decodeFrom none bs := by
  rw [decodeFrom, step, toNat_ofNat_of_lt (by omega), start, if_pos h]
  rfl

theorem decodeFrom_two (hlow : 2 ≤ m) (hhigh : m < 0x20) :
    decodeFrom none (UInt8.ofNat (m + 0xC0) :: bs) =
      decodeFrom (some ⟨1, 0x80, 0xBF, m⟩) bs := by
  rw [decodeFrom, step, toNat_ofNat_of_lt (by omega), start, if_neg (by omega),
    if_pos (by simp; omega), Nat.add_sub_cancel]
  rfl

theorem decodeFrom_three (h : m < 0x10) :
    decodeFrom none (UInt8.ofNat (m + 0xE0) :: bs) = decodeFrom
      (some ⟨2, if m = 0 then 0xA0 else 0x80, if m = 0xD then 0x9F else 0xBF, m⟩) bs := by
  rw [decodeFrom, step, toNat_ofNat_of_lt (by omega)]
  interval_cases m <;> rfl

theorem decodeFrom_four (h : m < 5) :
    decodeFrom none (UInt8.ofNat (m + 0xF0) :: bs) = decodeFrom
      (some ⟨3, if m = 0 then 0x90 else 0x80, if m = 4 then 0x8F else 0xBF, m⟩) bs := by
  rw [decodeFrom, step, toNat_ofNat_of_lt (by omega)]
  interval_cases m <;> rfl

theorem step_continue (h : m < 0x40) (hlow : low ≤ m + 0x80) (hhigh : m + 0x80 ≤ high) :
    step (some ⟨owed, low, high, code⟩) (UInt8.ofNat (m + 0x80)).toNat =
      if owed = 1 then ([Char.ofNat (code * 64 + m)], none)
      else ([], some ⟨owed - 1, 0x80, 0xBF, code * 64 + m⟩) := by
  rw [toNat_ofNat_of_lt (by omega), step]
  simp [hlow, hhigh]

/-- The last byte of a character completes it, and nothing is pending behind it. The bounds are
those of the byte that is due. -/
theorem decodeFrom_last (h : m < 0x40) (hlow : low ≤ m + 0x80) (hhigh : m + 0x80 ≤ high) :
    decodeFrom (some ⟨1, low, high, code⟩) (UInt8.ofNat (m + 0x80) :: bs) =
      Char.ofNat (code * 64 + m) :: decodeFrom none bs := by
  rw [decodeFrom, step_continue h hlow hhigh]
  rfl

/-- Any other byte behind the first adds its six bits. The byte after it has the widest bounds
again. -/
theorem decodeFrom_more (h : m < 0x40) (hlow : low ≤ m + 0x80) (hhigh : m + 0x80 ≤ high) :
    decodeFrom (some ⟨owed + 2, low, high, code⟩) (UInt8.ofNat (m + 0x80) :: bs) =
      decodeFrom (some ⟨owed + 1, 0x80, 0xBF, code * 64 + m⟩) bs := by
  rw [decodeFrom, step_continue h hlow hhigh]
  rfl

end Bytes

/-- **A character is read from its bytes, and what follows is read afresh.** There is one case for
each number of bytes. -/
theorem decodeFrom_encodeChar (c : Char) (bs : List UInt8) :
    decodeFrom none (String.utf8EncodeChar c ++ bs) = c :: decodeFrom none bs := by
  have hvalid := codePoint_bounds c
  have hc : Char.ofNat c.val.toNat = c := Char.ofNat_toNat c
  simp only [String.utf8EncodeChar]
  generalize c.val.toNat = n at *
  -- the number of bytes is that of the groups of bits that are not zero
  split
  · rw [List.cons_append, decodeFrom_one _ (by omega), hc]
    rfl
  split
  · simp only [List.cons_append, List.nil_append]
    rw [decodeFrom_two _ (by omega) (by omega), decodeFrom_last _ (by omega) (by omega) (by omega),
      show n / 64 % 32 * 64 + n % 64 = n by omega, hc]
  split
  · simp only [List.cons_append, List.nil_append]
    -- neither an overlong form nor a surrogate is written
    have hlow : (if n / 4096 % 16 = 0 then 0xA0 else 0x80) ≤ n / 64 % 64 + 0x80 := by
      split <;> omega
    have hhigh : n / 64 % 64 + 0x80 ≤ if n / 4096 % 16 = 0xD then 0x9F else 0xBF := by
      split <;> omega
    rw [decodeFrom_three _ (by omega), decodeFrom_more _ (by omega) hlow hhigh,
      decodeFrom_last _ (by omega) (by omega) (by omega),
      show (n / 4096 % 16 * 64 + n / 64 % 64) * 64 + n % 64 = n by omega, hc]
  · simp only [List.cons_append, List.nil_append]
    -- neither an overlong form nor a number past the last code point is written
    have hlow : (if n / 262144 % 8 = 0 then 0x90 else 0x80) ≤ n / 4096 % 64 + 0x80 := by
      split <;> omega
    have hhigh : n / 4096 % 64 + 0x80 ≤ if n / 262144 % 8 = 4 then 0x8F else 0xBF := by
      split <;> omega
    rw [decodeFrom_four _ (by omega), decodeFrom_more _ (by omega) hlow hhigh,
      decodeFrom_more _ (by omega) (by omega) (by omega),
      decodeFrom_last _ (by omega) (by omega) (by omega),
      show ((n / 262144 % 8 * 64 + n / 4096 % 64) * 64 + n / 64 % 64) * 64 + n % 64 = n by omega,
      hc]

/-- **The bytes of a text are read as the text.** Nothing is replaced in them. -/
theorem decodeLossy_encode (s : String) : decodeLossy (encode s) = s := by
  have hchars : ∀ cs : List Char, decodeFrom none (cs.flatMap String.utf8EncodeChar) = cs := by
    intro cs
    induction cs with
    | nil => rfl
    | cons c cs ih => rw [List.flatMap_cons, decodeFrom_encodeChar, ih]
  rw [decodeLossy, encode_eq_flatMap, hchars, String.ofList_toList]

/-- Where strict decoding succeeds, lossy decoding gives the same text. The two differ only on bytes
that are no text. -/
theorem decodeLossy_of_decode? {bytes : List UInt8} {s : String} (h : decode? bytes = some s) :
    decodeLossy bytes = s := by
  rw [← encode_of_decode? h, decodeLossy_encode]

end Utf8

end FlatSql
