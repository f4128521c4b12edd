import FlatSql.Proofs.Bytes.Reads

/-!
# Reading loses nothing

`Reader.Reads` starts from bytes that were written. Here the bytes may be any: when a step gives a
value, then the bytes that it passed spell the value, and the step would have given the same value
with anything else after them. The first half says that the bytes can be recovered from the value,
the second that a step looks at no byte beyond those it passes.

What it is for bytes to spell a value differs from step to step: for most data it is to be the bytes
that are written for it, but a flag may be spelled by any nonzero byte. So the predicate
`Reader.Spells` takes a relation between values and bytes, and it composes along `>>=` as
`Reader.Reads` does.

## Main definitions

* `Reader.Spells` — the bytes that a step passes are in a relation to the value it gives

## Main results

* `Reader.Spells.bind`, `Reader.Spells.split` — composition, and its inversion
* `Reader.spells_word`, `Reader.spells_text` and others — data are spelled as they are written
-/

namespace FlatSql

/-! ### Bytes that a number stands for -/

theorem LittleEndian.encode_decode (bytes : List UInt8) :
    encode bytes.length (decode bytes) = bytes := by
  induction bytes with
  | nil => rfl
  | cons b bs ih =>
    have hlt := b.toNat_lt
    have hb : UInt8.ofNat (b.toNat + 256 * decode bs) = b := by
      apply UInt8.toNat_inj.mp
      rw [UInt8.toNat_ofNat']
      omega
    have hbs : (b.toNat + 256 * decode bs) / 256 = decode bs := by omega
    rw [List.length_cons, decode, encode, hb, hbs, ih]

theorem LittleEndian.decode_lt (bytes : List UInt8) :
    decode bytes < Nat.pow 256 bytes.length := by
  induction bytes with
  | nil => exact Nat.one_pos
  | cons b bs ih =>
    have hlt := b.toNat_lt
    have hpow : Nat.pow 256 (bs.length + 1) = 256 * Nat.pow 256 bs.length := Nat.pow_succ'
    rw [List.length_cons, decode, hpow]
    omega

namespace Reader

variable {α β : Type} {step : Reading α} {next : α → Reading β} {P P' : α → List UInt8 → Prop}
  {Q : α → β → List UInt8 → Prop}

/-! ### Spelling -/

/-- When the step gives a value, the bytes that it passed spell the value, and it gives the value
whatever stands after them. -/
def Spells (step : Reading α) (P : α → List UInt8 → Prop) : Prop :=
  ∀ r a r', step.exec r = (.ok a, r') →
    ∃ bytes, r.rest = bytes ++ r'.rest ∧ Reads step bytes a ∧ P a bytes

theorem Spells.imp (h : Spells step P) (h' : ∀ a bytes, P a bytes → P' a bytes) :
    Spells step P' := by
  intro r a r' hr
  obtain ⟨bytes, hrest, hreads, hp⟩ := h r a r' hr
  exact ⟨bytes, hrest, hreads, h' a bytes hp⟩

theorem spells_pure (a : α) : Spells (pure a) fun a' bytes => a' = a ∧ bytes = [] := by
  intro r a' r' hr
  obtain ⟨ha, rfl⟩ := Prod.mk.inj hr
  obtain rfl := Except.ok.inj ha
  exact ⟨[], rfl, reads_pure a, rfl, rfl⟩

theorem spells_throw (cause : Corruption) : Spells (throw cause) P :=
  fun _ _ _ h => nomatch (Prod.mk.inj h).1

theorem spells_ofExcept (x : Except Corruption α) :
    Spells (Action.ofExcept x) fun a bytes => x = .ok a ∧ bytes = [] := by
  intro r a r' hr
  obtain ⟨rfl, rfl⟩ := Prod.mk.inj hr
  exact ⟨[], rfl, fun _ _ => rfl, rfl, rfl⟩

/-- Where a sequence ends well, its first step has passed bytes that spell a value, and the rest of
the sequence goes on from there. -/
theorem Spells.split (h : Spells step P) {r r' : Reader} {b : β}
    (hr : (step >>= next).exec r = (.ok b, r')) :
    ∃ a bytes r₁, r.rest = bytes ++ r₁.rest ∧ Reads step bytes a ∧ P a bytes ∧
      (next a).exec r₁ = (.ok b, r') := by
  rw [Action.exec_bind] at hr
  rcases hs : step.exec r with ⟨e | a, r₁⟩
  · rw [hs] at hr
    cases (Prod.mk.inj hr).1
  · rw [hs] at hr
    obtain ⟨bytes, hrest, hreads, hp⟩ := h r a r₁ hs
    exact ⟨a, bytes, r₁, hrest, hreads, hp, hr⟩

/-- The bytes of a sequence are those of its steps, one after another. Where the first ends is known
only from its value. -/
theorem Spells.bind (h : Spells step P) (h' : ∀ a, Spells (next a) (Q a)) :
    Spells (step >>= next) fun b bytes =>
      ∃ a u v, bytes = u ++ v ∧ P a u ∧ Q a b v := by
  intro r b r' hr
  obtain ⟨a, u, r₁, hu, hreads, hp, hr⟩ := h.split hr
  obtain ⟨v, hv, hreads', hq⟩ := h' a r₁ b r' hr
  refine ⟨u ++ v, ?_, hreads.bind hreads', a, u, v, rfl, hp, hq⟩
  rw [hu, hv, List.append_assoc]

/-- The bytes of a step followed by one that takes none. -/
theorem Spells.bind_pure (h : Spells step P) (f : α → β) :
    Spells (step >>= fun a => pure (f a)) fun b bytes => ∃ a, b = f a ∧ P a bytes := by
  refine (h.bind fun a => spells_pure (f a)).imp ?_
  rintro b bytes ⟨a, u, v, rfl, hp, rfl, rfl⟩
  exact ⟨a, rfl, by rwa [List.append_nil]⟩

theorem spells_take (n : Nat) :
    Spells (take n) fun taken bytes => taken = bytes ∧ bytes.length = n := by
  intro r taken r' hr
  rw [exec_take] at hr
  split at hr
  · next hn =>
    obtain ⟨ha, rfl⟩ := Prod.mk.inj hr
    obtain rfl := Except.ok.inj ha
    have hlen : (r.rest.take n).length = n := List.length_take_of_le hn
    have hreads := reads_take (r.rest.take n)
    rw [hlen] at hreads
    exact ⟨r.rest.take n, (List.take_append_drop n r.rest).symm, hreads, rfl, hlen⟩
  · cases (Prod.mk.inj hr).1

/-! ### Data -/

theorem spells_byte : Spells byte fun b bytes => bytes = [b] := by
  refine ((spells_take 1).bind_pure _).imp ?_
  rintro b bytes ⟨taken, rfl, rfl, hlen⟩
  obtain ⟨b, rfl⟩ := List.length_eq_one_iff.mp hlen
  simp [LittleEndian.decode]

theorem spells_word : Spells word fun n bytes => bytes = encodeWord n := by
  refine ((spells_take 4).bind_pure _).imp ?_
  rintro n bytes ⟨taken, rfl, rfl, hlen⟩
  have hlt := LittleEndian.decode_lt taken
  have henc := LittleEndian.encode_decode taken
  rw [hlen] at hlt henc
  rw [encodeWord, UInt32.toNat_ofNat_of_lt' hlt, henc]

theorem spells_signedWord : Spells signedWord fun n bytes => bytes = encodeSignedWord n := by
  refine (spells_word.bind_pure _).imp ?_
  rintro n bytes ⟨w, rfl, rfl⟩
  rw [encodeSignedWord, UInt32.toUInt32_toInt32]

theorem spells_float : Spells float fun x bytes => bytes = encodeFloat x := by
  refine ((spells_take 8).bind_pure _).imp ?_
  rintro x bytes ⟨taken, rfl, rfl, hlen⟩
  have hlt := LittleEndian.decode_lt taken
  have henc := LittleEndian.encode_decode taken
  rw [hlen] at hlt henc
  rw [encodeFloat, UInt64.toNat_ofNat_of_lt' hlt, henc]

theorem spells_run : Spells run fun data bytes => encodeRun data = .ok bytes := by
  refine (spells_word.bind fun n => spells_take n.toNat).imp ?_
  rintro data bytes ⟨w, u, v, rfl, rfl, rfl, hlen⟩
  exact encodeRun_eq_ok_iff.mpr ⟨w, hlen.symm, rfl⟩

theorem spells_text : Spells text fun s bytes => encodeText s = .ok bytes := by
  intro r s r' hr
  rw [text, Action.exec_get_bind] at hr
  obtain ⟨data, bytes, r₁, hrest, -, hdata, hr⟩ := spells_run.split hr
  cases hs : Utf8.decode? data with
  | none =>
    rw [hs] at hr
    cases (Prod.mk.inj hr).1
  | some s' =>
    rw [hs] at hr
    obtain ⟨ha, rfl⟩ := Prod.mk.inj hr
    obtain rfl := Except.ok.inj ha
    have henc : encodeText s' = .ok bytes := by rw [encodeText, Utf8.encode_of_decode? hs, hdata]
    exact ⟨bytes, hrest, reads_text henc, henc⟩

end Reader

end FlatSql
