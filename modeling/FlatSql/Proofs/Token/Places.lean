import FlatSql.Proofs.Token.Tiling

/-!
# A cursor is a place in the list of tokens

A cursor never has the tokens of its text. It cuts the next one when it is asked for it, and cuts
too early when it only looks: then the characters that are left start behind the token that is still
to be handed out. Seen from outside it is a place in the list of all tokens. Handing out moves the
place by one and stays on the end; looking does not move it, however often; going back and another
text put it on the first token; and draining gives the list and puts it on the end.

This is said for any sequence of calls, by comparing the answers. A cursor stands at a place in one
of two ways, according to whether a token has been looked at, and every call leads from either way
into one of them.

## Main definitions

* `Cursor.Place` — a place in the list of the tokens of a text
* `Cursor.Call`, `Cursor.Call.onCursor`, `Cursor.Call.onPlace` — the calls, and what they do
* `Cursor.answers` — what a sequence of calls answers
* `Cursor.Stands` — the place at which a cursor stands
* `Cursor.handOut` — handing out so many tokens

## Main results

* `Cursor.Stands.onCursor` — a call keeps a cursor at its place
* `Cursor.answers_ofText` — a cursor answers as a place does
* `Cursor.drain_eq_handOut` — draining is handing out one token after another
-/

namespace FlatSql

namespace Cursor

/-! ### Places -/

/-- A place in the list of the tokens of a text. There is a token at every place. -/
structure Place where
  text : String
  index : Nat
  inside : index < (Token.all text).length

namespace Place

/-- The token at a place, which may be the end. -/
def token (p : Place) : Token := (Token.all p.text).get ⟨p.index, p.inside⟩

/-- The tokens from a place on. The first of them is the one at the place. -/
def onwards (p : Place) : List Token := (Token.all p.text).drop p.index

/-- There is a token, since there is an end. So every text has a first place. -/
theorem length_all_pos (text : String) : 0 < (Token.all text).length := by
  obtain ⟨tokens, htokens, -⟩ := Token.exists_all_eq text
  rw [htokens, List.length_append]
  exact Nat.succ_pos _

/-- The place of the first token, where a cursor stands on a new text. -/
def first (text : String) : Place := ⟨text, 0, length_all_pos text⟩

/-- The place of the last token, from which there is no way forward. -/
def last (text : String) : Place :=
  ⟨text, (Token.all text).length - 1, Nat.sub_one_lt_of_lt (length_all_pos text)⟩

/-- The place after a place; there is none after the last. Going forward from the last is to stay
there. -/
def forward (p : Place) : Place :=
  if h : p.index + 1 < (Token.all p.text).length then ⟨p.text, p.index + 1, h⟩ else p

@[simp] theorem text_forward (p : Place) : p.forward.text = p.text := by
  unfold forward
  split <;> rfl

theorem onwards_eq (p : Place) :
    p.onwards = p.token :: (Token.all p.text).drop (p.index + 1) :=
  List.drop_eq_getElem_cons p.inside

/-- As long as more tokens follow, these are the tokens from the next place on. -/
theorem onwards_forward {p : Place} {tokens : List Token} (h : p.onwards = p.token :: tokens)
    (hmore : tokens ≠ []) : p.forward.onwards = tokens := by
  obtain ⟨-, rfl⟩ := List.cons_eq_cons.mp (p.onwards_eq.symm.trans h)
  rw [forward, dif_pos (Nat.lt_of_not_le fun hle => hmore (List.drop_eq_nil_iff.mpr hle))]
  rfl

/-- Where nothing follows a place, it is the last. Going forward from it changes nothing. -/
theorem forward_eq_self {p : Place} (h : p.onwards = [p.token]) : p.forward = p := by
  obtain ⟨-, hnone⟩ := List.cons_eq_cons.mp (p.onwards_eq.symm.trans h)
  rw [forward, dif_neg (Nat.not_lt.mpr (List.drop_eq_nil_iff.mp hnone))]

/-- The last place is that of the end. It stands behind all bytes of the text. -/
theorem onwards_last (text : String) : (last text).onwards = [.finish text.utf8ByteSize] := by
  obtain ⟨tokens, htokens, -⟩ := Token.exists_all_eq text
  change (Token.all text).drop ((Token.all text).length - 1) = _
  rw [htokens, List.length_append, List.length_singleton, Nat.add_sub_cancel, List.drop_left]

/-- **The end is the last token** and only that. A cursor that is handed the end stays there. -/
theorem isFinish_token_iff (p : Place) : p.token.isFinish = true ↔ p = last p.text := by
  obtain ⟨text, index, inside⟩ := p
  obtain ⟨tokens, htokens, htiling⟩ := Token.exists_all_eq text
  constructor
  · intro hfinish
    have hlength : ¬ index < tokens.length := by
      intro hlt
      have hmem : token ⟨text, index, inside⟩ ∈ tokens := by
        simp only [token, htokens, List.get_eq_getElem, List.getElem_append_left hlt]
        exact List.getElem_mem hlt
      obtain ⟨_, _, -, -, hmunched⟩ := htiling.placed _ hmem
      exact hmunched.kind_ne_finish (of_decide_eq_true hfinish)
    have hindex : index = (Token.all text).length - 1 := by
      rw [htokens, List.length_append, List.length_singleton] at inside ⊢
      omega
    subst hindex
    rfl
  · intro hlast
    have honwards := (onwards_eq _).symm.trans (onwards_last text)
    obtain ⟨htoken, -⟩ := List.cons_eq_cons.mp honwards
    rw [hlast, htoken]
    rfl

end Place

/-! ### Calls -/

/-- What can be asked of a cursor. Calls may come in any order. -/
inductive Call where
  | next
  | peek
  | rewind
  | load (text : String)
  | drain
  deriving DecidableEq, Repr

/-- What a call answers. Some calls only change the cursor. -/
inductive Answer where
  | nothing
  | token (t : Token)
  | tokens (ts : List Token)
  deriving DecidableEq, Repr

namespace Call

/-- What a call does to a cursor: its answer, and the cursor after it. -/
def onCursor : Call → Cursor → Answer × Cursor
  | next, c => c.next.map .token id
  | peek, c => c.peek.map .token id
  | rewind, c => (.nothing, c.rewind)
  | load text, c => (.nothing, c.load text)
  | drain, c => c.drain.map .tokens id

/-- What a call does to a place. Looking ahead does not move it, and draining goes through all
tokens from the start. -/
def onPlace : Call → Place → Answer × Place
  | next, p => (.token p.token, p.forward)
  | peek, p => (.token p.token, p)
  | rewind, p => (.nothing, .first p.text)
  | load text, _ => (.nothing, .first text)
  | drain, p => (.tokens (Token.all p.text), .last p.text)

end Call

/-- What calls answer, one after another. The step says what a call does, so that cursors and places
can be asked alike. -/
def answers {σ : Type} (step : Call → σ → Answer × σ) : σ → List Call → List Answer
  | _, [] => []
  | s, call :: calls => (step call s).1 :: answers step (step call s).2 calls

/-! ### Where a cursor stands -/

/-- The place at which a cursor stands. What it has still to cut are the tokens from there on, or
those behind the one that it has looked at. -/
inductive Stands : Cursor → Place → Prop where
  | unlooked {p : Place} {rest : List Char} {position : Nat}
      (h : Token.allFrom position rest = p.onwards) : Stands ⟨p.text, rest, position, none⟩ p
  | looked {p : Place} {rest : List Char} {position : Nat}
      (h : Token.allFrom position rest = p.forward.onwards) :
      Stands ⟨p.text, rest, position, some p.token⟩ p

theorem stands_ofText (text : String) : Stands (ofText text) (.first text) :=
  .unlooked (p := .first text) rfl

/-- What a drained cursor is left with. It stands at the end of its text, wherever it stood before.
-/
theorem drain_eq (c : Cursor) :
    c.drain = (Token.all c.text, ⟨c.text, [], c.text.utf8ByteSize, none⟩) := by
  obtain ⟨tokens, htokens, -⟩ := Token.exists_all_eq c.text
  rw [drain, htokens, List.getLast?_concat]
  rfl

/-- **Cutting** gives the token at the place, and what is then left starts at the next place. At the
end that is the same place. -/
theorem cut_eq {p : Place} {rest : List Char} {position : Nat} (ahead : Option Token)
    (h : Token.allFrom position rest = p.onwards) : ∃ rest' position',
    cut ⟨p.text, rest, position, ahead⟩ = (p.token, ⟨p.text, rest', position', none⟩) ∧
      Token.allFrom position' rest' = p.forward.onwards := by
  cases hnext : Token.next? position rest with
  | none =>
    rw [Token.allFrom_of_next?_eq_none hnext] at h
    obtain ⟨htoken, -⟩ := List.cons_eq_cons.mp (h.trans p.onwards_eq)
    refine ⟨[], Token.startAt position rest, by simp only [cut, hnext, htoken], ?_⟩
    rw [Token.allFrom_nil, Place.forward_eq_self (htoken ▸ h.symm), h]
  | some cut' =>
    obtain ⟨t, position', rest'⟩ := cut'
    rw [Token.allFrom_of_next?_eq_some hnext] at h
    obtain ⟨rfl, -⟩ := List.cons_eq_cons.mp (h.trans p.onwards_eq)
    refine ⟨rest', position', by simp only [cut, hnext], ?_⟩
    exact (Place.onwards_forward h.symm (Token.allFrom_ne_nil _ _)).symm

/-- **Handing out** gives the token at the place, looked at or not, and goes on to the next. A token
that has been looked at is not cut again. -/
theorem Stands.next {c : Cursor} {p : Place} (h : Stands c p) : ∃ rest position,
    c.next = (p.token, ⟨p.text, rest, position, none⟩) ∧
      Token.allFrom position rest = p.forward.onwards := by
  cases h with
  | unlooked h => exact cut_eq none h
  | looked h => exact ⟨_, _, rfl, h⟩

/-- **A call keeps a cursor at its place**, and answers what the place answers. There is one case
for each call. -/
theorem Stands.onCursor {c : Cursor} {p : Place} (h : Stands c p) (call : Call) :
    (call.onCursor c).1 = (call.onPlace p).1 ∧
      Stands (call.onCursor c).2 (call.onPlace p).2 := by
  have htext : c.text = p.text := by cases h <;> rfl
  obtain ⟨rest, position, hnext, hrest⟩ := h.next
  cases call with
  | next =>
    rw [Call.onCursor, hnext]
    exact ⟨rfl, p.text_forward ▸ .unlooked hrest⟩
  | peek =>
    rw [Call.onCursor, peek, hnext]
    exact ⟨rfl, .looked hrest⟩
  | rewind =>
    rw [Call.onCursor, rewind, htext]
    exact ⟨rfl, stands_ofText p.text⟩
  | load text => exact ⟨rfl, stands_ofText text⟩
  | drain =>
    have hend := (Token.allFrom_nil _).trans (Place.onwards_last p.text).symm
    rw [Call.onCursor, drain_eq, htext]
    exact ⟨rfl, .unlooked (p := .last p.text) hend⟩

/-- Cursors and places answer alike from wherever they stand. The induction is on the calls. -/
theorem Stands.answers_eq {c : Cursor} {p : Place} (h : Stands c p) (calls : List Call) :
    answers Call.onCursor c calls = answers Call.onPlace p calls := by
  induction calls generalizing c p with
  | nil => rfl
  | cons call calls ih =>
    obtain ⟨hanswer, hstands⟩ := h.onCursor call
    rw [answers, answers, hanswer, ih hstands]

/-- **A cursor is a place in the list of tokens.** Whatever is asked of a cursor at the start of a
text, in whatever order, it answers as the first place of the text does; and it is the last place,
which is never left by going forward, that has the end. -/
theorem answers_ofText (text : String) (calls : List Call) :
    answers Call.onCursor (ofText text) calls = answers Call.onPlace (.first text) calls ∧
      ∀ p : Place, p.token.isFinish = true ↔ p = .last p.text :=
  ⟨(stands_ofText text).answers_eq calls, Place.isFinish_token_iff⟩

/-- A token that is looked at twice and then handed out, and the end that is handed out again. -/
example : answers Call.onCursor (ofText "x") [.peek, .peek, .next, .next, .next] =
    [.token ⟨.name, "x", 0⟩, .token ⟨.name, "x", 0⟩, .token ⟨.name, "x", 0⟩,
      .token (.finish 1), .token (.finish 1)] := by decide +kernel

/-! ### Draining -/

/-- Hands out so many tokens, one after another. Each is asked for by a call of its own. -/
def handOut : Nat → Cursor → List Token × Cursor
  | 0, c => ([], c)
  | n + 1, c =>
    let (t, c') := c.next
    let (ts, c'') := handOut n c'
    (t :: ts, c'')

/-- As many tokens as there are can be handed out, and then the cursor is at the end. The induction
is on the tokens that are left. -/
theorem handOut_allFrom (text : String) (position : Nat) (rest : List Char) :
    handOut (Token.allFrom position rest).length ⟨text, rest, position, none⟩ =
      (Token.allFrom position rest, ⟨text, [], position + byteLength rest, none⟩) := by
  induction position, rest using Token.allFrom.induct with
  | case1 position rest h =>
    have hblank := List.takeWhile_eq_self_iff.mpr (Token.isAsciiBlank_of_next?_eq_none h)
    have hstart : Token.startAt position rest = position + byteLength rest := by
      rw [Token.startAt, hblank]
    rw [Token.allFrom_of_next?_eq_none h, hstart]
    simp only [List.length_singleton, handOut, next, cut, h, hstart]
  | case2 position rest t position' rest' h ih =>
    obtain ⟨gap, -, hrest, hposition, hposition', -⟩ := Token.cut_of_next? h
    have hbytes : position' + byteLength rest' = position + byteLength rest := by
      rw [hposition', Token.stop, hposition, hrest, byteLength_append, byteLength_append]
      omega
    rw [Token.allFrom_of_next?_eq_some h, List.length_cons, handOut]
    simp only [next, cut, h, ih, hbytes]

/-- **Draining is handing out one token after another** from the start, up to the end. The cursor is
then where these calls leave it. -/
theorem drain_eq_handOut (c : Cursor) : c.drain = handOut (Token.all c.text).length c.rewind := by
  rw [drain_eq, ← Utf8.byteLength_toList, ← Nat.zero_add (byteLength _)]
  exact (handOut_allFrom c.text 0 c.text.toList).symm

end Cursor

end FlatSql
