import FlatSql.Proofs.Text.Utf8
import FlatSql.Proofs.Token.Munch
import FlatSql.Sql.Cursor

/-!
# The tokens of a text tile it

Cutting a text loses nothing and makes nothing up. Every token stands in the text at its position,
and no two overlap; a character in no token is a blank. The text is walked by characters while
positions count bytes, so that every position is the byte length of the characters before it, and
never lies inside a character.

One token is cut at a time, from characters that start at some byte. A tiling is stated for such
characters, so that a token and the gap before it can be put in front of one.

## Main definitions

* `Token.stop` — the byte behind a token
* `Token.Tiling` — tokens that tile characters

## Main results

* `Utf8.length_encode`, `Utf8.encode_ofList_append` — byte lengths, and the bytes of a text in parts
* `Token.cut_of_next?` — what one step cuts off
* `Token.tiling_allFrom` — the tokens of characters tile them, and the end stands behind
* `Cursor.drain_tiling` — the tokens of a text
-/

namespace FlatSql

/-! ### Byte lengths -/

theorem byteLength_eq_length_flatMap (cs : List Char) :
    byteLength cs = (cs.flatMap String.utf8EncodeChar).length := by
  have h : ∀ n, cs.foldl (fun size c => size + c.utf8Size) n =
      n + (cs.flatMap String.utf8EncodeChar).length := by
    induction cs with
    | nil => exact fun n => rfl
    | cons c cs ih =>
      intro n
      rw [List.foldl_cons, ih, List.flatMap_cons, List.length_append,
        String.length_utf8EncodeChar, Nat.add_assoc]
  exact (h 0).trans (Nat.zero_add _)

@[simp] theorem byteLength_nil : byteLength [] = 0 := rfl

@[simp] theorem byteLength_append (cs ds : List Char) :
    byteLength (cs ++ ds) = byteLength cs + byteLength ds := by
  simp only [byteLength_eq_length_flatMap, List.flatMap_append, List.length_append]

theorem byteLength_cons_pos (c : Char) (cs : List Char) : 0 < byteLength (c :: cs) := by
  rw [byteLength_eq_length_flatMap, List.flatMap_cons, List.length_append,
    String.length_utf8EncodeChar]
  exact Nat.add_pos_left c.utf8Size_pos _

namespace Utf8

theorem length_encode (s : String) : (encode s).length = s.utf8ByteSize := rfl

theorem byteLength_toList (s : String) : byteLength s.toList = s.utf8ByteSize := by
  rw [byteLength_eq_length_flatMap, ← encode_eq_flatMap, length_encode]

theorem encode_ofList_append (cs ds : List Char) :
    encode (String.ofList (cs ++ ds)) =
      encode (String.ofList cs) ++ encode (String.ofList ds) := by
  simp only [encode_eq_flatMap, String.toList_ofList, List.flatMap_append]

/-- A piece of a text starts at the byte behind what stands before it. Positions count bytes, and
pieces are found there. -/
theorem encode_isPrefix_drop {s : String} {before piece after : List Char}
    (h : s.toList = before ++ (piece ++ after)) :
    encode (String.ofList piece) <+: (encode s).drop (byteLength before) := by
  have hlength : byteLength before = (encode (String.ofList before)).length := by
    rw [length_encode, ← byteLength_toList, String.toList_ofList]
  rw [← String.ofList_toList (s := s), h, encode_ofList_append, hlength, List.drop_left,
    encode_ofList_append]
  exact List.prefix_append _ _

end Utf8

/-! ### One step -/

namespace Token

/-- The byte behind a token. Its own bytes are those from its position up to there. -/
def stop (t : Token) : Nat := t.position + byteLength t.text.toList

/-- **What one step cuts off:** blanks, and then the longest token of its class. What is left starts
behind the token. -/
theorem cut_of_next? {position position' : Nat} {cs rest : List Char} {t : Token}
    (h : next? position cs = some (t, position', rest)) :
    ∃ gap, (∀ c ∈ gap, isAsciiBlank c = true) ∧ cs = gap ++ (t.text.toList ++ rest) ∧
      t.position = position + byteLength gap ∧ position' = t.stop ∧
      Munched t.kind t.text.toList rest := by
  unfold next? at h
  split at h
  · contradiction
  · next c more hcs =>
    simp only [Option.some.injEq, Prod.mk.injEq] at h
    obtain ⟨rfl, rfl, rfl⟩ := h
    have hblank : isAsciiBlank c = false := by
      simpa [hcs] using List.head_dropWhile_not (p := isAsciiBlank) (l := cs) (by simp [hcs])
    refine ⟨cs.takeWhile isAsciiBlank, fun d hd => List.mem_takeWhile_imp hd, ?_, rfl, ?_, ?_⟩
    · rw [String.toList_ofList, List.cons_append, Lexeme.tail_append_rest, ← hcs,
        List.takeWhile_append_dropWhile]
    · rw [stop, String.toList_ofList]
    · rw [String.toList_ofList]
      exact Lexeme.munched_ofChars hblank

/-- Where nothing is cut off there are only blanks. These stand in no token. -/
theorem isAsciiBlank_of_next?_eq_none {position : Nat} {cs : List Char}
    (h : next? position cs = none) : ∀ c ∈ cs, isAsciiBlank c = true := by
  unfold next? at h
  split at h
  · next hcs => exact List.dropWhile_eq_nil_iff.mp hcs
  · cases h

theorem isFinish_of_next? {position position' : Nat} {cs rest : List Char} {t : Token}
    (h : next? position cs = some (t, position', rest)) : t.isFinish = false := by
  obtain ⟨_, -, -, -, -, hmunched⟩ := cut_of_next? h
  exact decide_eq_false hmunched.kind_ne_finish

theorem allFrom_of_next?_eq_none {position : Nat} {cs : List Char} (h : next? position cs = none) :
    allFrom position cs = [finish (startAt position cs)] := by
  unfold allFrom
  split
  · rfl
  · next h' => cases h.symm.trans h'

theorem allFrom_of_next?_eq_some {position position' : Nat} {cs rest : List Char} {t : Token}
    (h : next? position cs = some (t, position', rest)) :
    allFrom position cs = t :: allFrom position' rest := by
  conv => lhs; unfold allFrom
  split
  · next h' => cases h.symm.trans h'
  · next h' =>
    obtain ⟨rfl, rfl, rfl⟩ := by simpa using h.symm.trans h'
    rfl

/-! ### Tilings -/

/-- Tokens that tile characters which start at a byte position. Between them there are only blanks.
-/
structure Tiling (start : Nat) (cs : List Char) (tokens : List Token) : Prop where
  /-- Every token stands among the characters at its position, and is the first token of what is
  there. -/
  placed : ∀ t ∈ tokens, ∃ before after, cs = before ++ (t.text.toList ++ after) ∧
    t.position = start + byteLength before ∧ Munched t.kind t.text.toList after
  /-- No token starts before an earlier one stops. -/
  ordered : tokens.Pairwise fun t t' => t.stop ≤ t'.position
  /-- A character that is no blank is in a token. -/
  covered : ∀ before c after, cs = before ++ c :: after → isAsciiBlank c = false →
    ∃ t ∈ tokens, t.position ≤ start + byteLength before ∧ start + byteLength before < t.stop

theorem tiling_nil {start : Nat} {cs : List Char} (h : ∀ c ∈ cs, isAsciiBlank c = true) :
    Tiling start cs [] where
  placed _ ht := absurd ht List.not_mem_nil
  ordered := .nil
  covered before c after hcs hc := by
    rw [h c (hcs ▸ List.mem_append_right _ List.mem_cons_self)] at hc
    cases hc

/-- A character of two lists is in the first, or in the second behind some of its own. With it a
place in a text is found in a gap, in a token or behind. -/
theorem split_append {xs ys before after : List Char} {c : Char}
    (h : xs ++ ys = before ++ c :: after) :
    (∃ more, xs = before ++ c :: more) ∨ ∃ before', before = xs ++ before' ∧
      ys = before' ++ c :: after := by
  obtain ⟨before', hbefore, hys⟩ | ⟨more, hxs, hafter⟩ := List.append_eq_append_iff.mp h
  · exact .inr ⟨before', hbefore, hys⟩
  · cases more with
    | nil => exact .inr ⟨[], by simpa using hxs.symm, by simpa using hafter.symm⟩
    | cons d more =>
      obtain ⟨rfl, rfl⟩ := List.cons_eq_cons.mp hafter
      exact .inl ⟨more, hxs⟩

/-- No token of a tiling starts before the characters. So tokens in front of it stay in front. -/
theorem Tiling.le_position {start : Nat} {cs : List Char} {tokens : List Token}
    (h : Tiling start cs tokens) : ∀ t ∈ tokens, start ≤ t.position := by
  intro t ht
  obtain ⟨before, _, _, hposition, _⟩ := h.placed t ht
  exact hposition ▸ Nat.le_add_right _ _

/-- A gap and a token in front of a tiling. The gap has only blanks, and the tiling starts behind
the token. -/
theorem Tiling.cons {start : Nat} {gap rest : List Char} {t : Token} {tokens : List Token}
    (hgap : ∀ c ∈ gap, isAsciiBlank c = true) (hposition : t.position = start + byteLength gap)
    (hmunched : Munched t.kind t.text.toList rest) (h : Tiling t.stop rest tokens) :
    Tiling start (gap ++ (t.text.toList ++ rest)) (t :: tokens) where
  placed t' ht' := by
    rcases List.mem_cons.mp ht' with rfl | ht'
    · exact ⟨gap, rest, rfl, hposition, hmunched⟩
    · obtain ⟨before, after, rfl, hposition', hmunched'⟩ := h.placed t' ht'
      refine ⟨gap ++ (t.text.toList ++ before), after, by simp only [List.append_assoc], ?_,
        hmunched'⟩
      rw [hposition', stop, hposition, byteLength_append, byteLength_append]
      omega
  ordered := List.pairwise_cons.mpr ⟨h.le_position, h.ordered⟩
  covered before c after hcs hc := by
    -- the character is in the gap, in the token, or in the tiling behind it
    obtain ⟨more, rfl⟩ | ⟨before', rfl, hcs'⟩ := split_append hcs
    · rw [hgap c (List.mem_append_right _ List.mem_cons_self)] at hc
      cases hc
    obtain ⟨more, htext⟩ | ⟨before'', rfl, hcs''⟩ := split_append hcs'
    · have hpos := byteLength_cons_pos c more
      refine ⟨t, List.mem_cons_self, ?_, ?_⟩
      · rw [hposition, byteLength_append]
        omega
      · rw [stop, hposition, htext, byteLength_append, byteLength_append]
        omega
    · obtain ⟨t', ht', hle, hlt⟩ := h.covered before'' c after hcs'' hc
      rw [stop, hposition] at hle hlt
      refine ⟨t', List.mem_cons_of_mem _ ht', ?_, ?_⟩ <;>
      · rw [byteLength_append, byteLength_append]
        omega

/-- **The tokens of characters tile them, and the end stands behind.** The induction is on the steps
of cutting. -/
theorem tiling_allFrom (position : Nat) (cs : List Char) : ∃ tokens,
    allFrom position cs = tokens ++ [finish (position + byteLength cs)] ∧
      Tiling position cs tokens := by
  induction position, cs using allFrom.induct with
  | case1 position cs h =>
    have hblank := isAsciiBlank_of_next?_eq_none h
    refine ⟨[], ?_, tiling_nil hblank⟩
    rw [allFrom_of_next?_eq_none h, startAt, List.takeWhile_eq_self_iff.mpr hblank]
    rfl
  | case2 position cs t position' rest h ih =>
    obtain ⟨tokens, htokens, htiling⟩ := ih
    obtain ⟨gap, hgap, rfl, hposition, rfl, hmunched⟩ := cut_of_next? h
    refine ⟨t :: tokens, ?_, htiling.cons hgap hposition hmunched⟩
    rw [allFrom_of_next?_eq_some h, htokens, stop, hposition, byteLength_append,
      byteLength_append, List.cons_append, Nat.add_assoc, Nat.add_assoc]

/-- At the end there is only the end to be cut. It stands where the characters end. -/
theorem allFrom_nil (position : Nat) : allFrom position [] = [finish position] :=
  allFrom_of_next?_eq_none rfl

theorem allFrom_ne_nil (position : Nat) (cs : List Char) : allFrom position cs ≠ [] := by
  obtain ⟨tokens, htokens, -⟩ := tiling_allFrom position cs
  rw [htokens]
  exact List.concat_ne_nil _ _

/-- The tokens of a text end with its end. All others tile the text from its first byte on. -/
theorem exists_all_eq (text : String) : ∃ tokens,
    all text = tokens ++ [finish text.utf8ByteSize] ∧ Tiling 0 text.toList tokens := by
  obtain ⟨tokens, htokens, htiling⟩ := tiling_allFrom 0 text.toList
  rw [Utf8.byteLength_toList, Nat.zero_add] at htokens
  exact ⟨tokens, htokens, htiling⟩

end Token

/-- **The tokens of a text tile it.** Whatever was handed out before, they end with the end of the
text, which stands behind its bytes and nowhere else; each of the others is not empty and spells the
bytes at its position. They are in order and leave out nothing but blanks, and each is the longest
of its class at its place. -/
theorem Cursor.drain_tiling (c : Cursor) : ∃ tokens,
    c.drain.1 = tokens ++ [Token.finish c.text.utf8ByteSize] ∧
      (∀ t ∈ tokens, t.kind ≠ .finish ∧ t.text ≠ "" ∧
        Utf8.encode t.text <+: (Utf8.encode c.text).drop t.position) ∧
      Token.Tiling 0 c.text.toList tokens := by
  obtain ⟨tokens, htokens, htiling⟩ := Token.tiling_allFrom 0 c.text.toList
  rw [Utf8.byteLength_toList, Nat.zero_add] at htokens
  refine ⟨tokens, htokens, fun t ht => ?_, htiling⟩
  obtain ⟨before, after, hcs, hposition, hmunched⟩ := htiling.placed t ht
  refine ⟨hmunched.kind_ne_finish, fun hempty => hmunched.ne_nil (hempty ▸ rfl), ?_⟩
  rw [hposition, Nat.zero_add, ← String.ofList_toList (s := t.text)]
  exact Utf8.encode_isPrefix_drop hcs

end FlatSql
