import FlatSql.Bytes.Reader
import FlatSql.Proofs.Atomic

/-!
# What reading gives back

Two statements about a reading step compose along `>>=` and carry everything that is proved about
stored bytes. `Reader.Reads` says that a step, wherever it starts, takes exactly the bytes in front
of it and gives a value; it holds of each datum and the bytes that are written for it. The other,
`Reader.Yields`, says what is true of every value that a step gives, whatever the bytes were.

## Main definitions

* `Reader.Reads` — a step takes given bytes and gives a given value
* `Reader.Yields` — all values that a step gives have a property

## Main results

* `Reader.Reads.bind`, `Reader.Yields.bind` — composition
* `Reader.reads_datum` — a datum is read from its bytes
-/

namespace FlatSql

namespace Reader

variable {α β : Type}

/-! ### Reading bytes that were written -/

/-- Wherever it starts, the step takes the bytes in front of it, gives the value and stops there.
Nothing behind the bytes has a part in it, so that steps can be put one behind another. -/
def Reads (step : Reading α) (bytes : List UInt8) (a : α) : Prop :=
  ∀ rest position,
    step.exec ⟨bytes ++ rest, position⟩ = (.ok a, ⟨rest, position + bytes.length⟩)

theorem reads_pure (a : α) : Reads (pure a) [] a := fun _ _ => rfl

theorem Reads.bind {step : Reading α} {next : α → Reading β} {bytes bytes' : List UInt8} {a : α}
    {b : β} (h : Reads step bytes a) (h' : Reads (next a) bytes' b) :
    Reads (step >>= next) (bytes ++ bytes') b := by
  intro rest position
  rw [List.append_assoc, Action.exec_bind_of_ok (h (bytes' ++ rest) position), h',
    List.length_append, Nat.add_assoc]

theorem Reads.map {step : Reading α} {bytes : List UInt8} {a : α} (h : Reads step bytes a)
    (f : α → β) : Reads (f <$> step) bytes (f a) := by
  intro rest position
  rw [Action.exec_map, h]
  rfl

/-- A step followed by one that takes no bytes. -/
theorem Reads.bind_pure {step : Reading α} {bytes : List UInt8} {a : α} (h : Reads step bytes a)
    (f : α → β) : Reads (step >>= fun a => pure (f a)) bytes (f a) := by
  intro rest position
  exact Action.exec_bind_of_ok (h rest position)

theorem reads_take (bytes : List UInt8) : Reads (take bytes.length) bytes bytes := by
  intro rest position
  rw [exec_take, if_pos (by simp [remaining])]
  simp

/-! ### Data -/

theorem reads_byte (b : UInt8) : Reads byte [b] b := by
  have h := (reads_take [b]).bind_pure fun bytes => UInt8.ofNat (LittleEndian.decode bytes)
  have hb : UInt8.ofNat (LittleEndian.decode [b]) = b := by simp [LittleEndian.decode]
  rwa [hb] at h

@[simp] theorem length_encodeWord (n : UInt32) : (encodeWord n).length = 4 :=
  LittleEndian.length_encode 4 _

theorem reads_word (n : UInt32) : Reads word (encodeWord n) n := by
  have h := (reads_take (encodeWord n)).bind_pure
    fun bytes => UInt32.ofNat (LittleEndian.decode bytes)
  have hn : UInt32.ofNat (LittleEndian.decode (encodeWord n)) = n := by
    rw [encodeWord, LittleEndian.decode_encode_of_lt n.toNat_lt, UInt32.ofNat_toNat]
  rwa [length_encodeWord, hn] at h

@[simp] theorem length_encodeSignedWord (n : Int32) : (encodeSignedWord n).length = 4 :=
  length_encodeWord _

theorem reads_signedWord (n : Int32) : Reads signedWord (encodeSignedWord n) n := by
  have h := (reads_word n.toUInt32).bind_pure UInt32.toInt32
  rwa [Int32.toInt32_toUInt32] at h

theorem reads_float (x : Binary64) : Reads float (encodeFloat x) x := by
  have h := (reads_take (encodeFloat x)).bind_pure
    fun bytes => Binary64.mk (UInt64.ofNat (LittleEndian.decode bytes))
  have hx : Binary64.mk (UInt64.ofNat (LittleEndian.decode (encodeFloat x))) = x := by
    rw [encodeFloat, LittleEndian.decode_encode_of_lt x.bits.toNat_lt, UInt64.ofNat_toNat]
  have hl : (encodeFloat x).length = 8 := LittleEndian.length_encode 8 _
  rwa [hl, hx] at h

/-- A length that has a word is written as that word, and every other is refused. -/
theorem wordOfLength_eq_ok_iff {n : Nat} {w : UInt32} :
    wordOfLength n = .ok w ↔ n < Nat.pow 2 32 ∧ w.toNat = n := by
  unfold wordOfLength
  split
  · next h =>
    constructor
    · intro hw
      rw [← Except.ok.inj hw]
      exact ⟨h, UInt32.toNat_ofNat_of_lt' h⟩
    · rintro ⟨-, rfl⟩
      rw [UInt32.ofNat_toNat]
  · next h => exact ⟨fun hw => (nomatch hw), fun hw => absurd hw.1 h⟩

theorem encodeRun_eq_ok_iff {data bytes : List UInt8} : encodeRun data = .ok bytes ↔
    ∃ w : UInt32, w.toNat = data.length ∧ bytes = encodeWord w ++ data := by
  rw [encodeRun, Except.bind_eq_ok_iff]
  constructor
  · rintro ⟨w, hw, h⟩
    exact ⟨w, (wordOfLength_eq_ok_iff.mp hw).2, (Except.ok.inj h).symm⟩
  · rintro ⟨w, hw, rfl⟩
    exact ⟨w, wordOfLength_eq_ok_iff.mpr ⟨hw ▸ w.toNat_lt, hw⟩, rfl⟩

theorem reads_run {data bytes : List UInt8} (h : encodeRun data = .ok bytes) :
    Reads run bytes data := by
  obtain ⟨w, hw, rfl⟩ := encodeRun_eq_ok_iff.mp h
  exact (reads_word w).bind (hw ▸ reads_take data)

theorem reads_text {s : String} {bytes : List UInt8} (h : encodeText s = .ok bytes) :
    Reads text bytes s := by
  intro rest position
  rw [text, Action.exec_get_bind, Action.exec_bind_of_ok (reads_run h rest position)]
  simp [Utf8.decode?_encode]

/-- **A datum is read from its bytes**, whatever stands behind them, if the reader is told its
shape. -/
theorem reads_datum {d : Datum} {bytes : List UInt8} (h : d.encode? = .ok bytes) :
    Reads (datum d.shape) bytes d := by
  cases d with
  | byte b =>
    obtain rfl := Except.ok.inj h
    exact (reads_byte b).map Datum.byte
  | word n =>
    obtain rfl := Except.ok.inj h
    exact (reads_word n).map Datum.word
  | signedWord n =>
    obtain rfl := Except.ok.inj h
    exact (reads_signedWord n).map Datum.signedWord
  | float x =>
    obtain rfl := Except.ok.inj h
    exact (reads_float x).map Datum.float
  | run data => exact (reads_run h).map Datum.run
  | text s => exact (reads_text h).map Datum.text

/-! ### What every value read is like -/

/-- Every value that the step gives has the property. The bytes may be any, so this is what can be
known of a damaged image that is not found out. -/
def Yields (step : Reading α) (P : α → Prop) : Prop :=
  ∀ r a r', step.exec r = (.ok a, r') → P a

theorem yields_pure {P : α → Prop} {a : α} (h : P a) : Yields (pure a) P := by
  intro r a' r' hr
  obtain ⟨ha, -⟩ := Prod.mk.inj hr
  exact Except.ok.inj ha ▸ h

theorem yields_throw {P : α → Prop} (cause : Corruption) : Yields (throw cause) P :=
  fun _ _ _ h => nomatch (Prod.mk.inj h).1

theorem Yields.bind {step : Reading α} {next : α → Reading β} {Q : α → Prop} {P : β → Prop}
    (h : Yields step Q) (h' : ∀ a, Q a → Yields (next a) P) : Yields (step >>= next) P := by
  intro r b r' hr
  rw [Action.exec_bind] at hr
  rcases hs : step.exec r with ⟨e | a, r₁⟩
  · simp [hs] at hr
  · rw [hs] at hr
    exact h' a (h r a r₁ hs) r₁ b r' hr

theorem yields_true (step : Reading α) : Yields step fun _ => True := fun _ _ _ _ => trivial

/-- What comes after a step that says nothing. The first step may give any value. -/
theorem yields_bind {step : Reading α} {next : α → Reading β} {P : β → Prop}
    (h : ∀ a, Yields (next a) P) : Yields (step >>= next) P :=
  (yields_true step).bind fun a _ => h a

theorem Yields.and {step : Reading α} {P Q : α → Prop} (h : Yields step P) (h' : Yields step Q) :
    Yields step fun a => P a ∧ Q a :=
  fun r a r' hr => ⟨h r a r' hr, h' r a r' hr⟩

theorem yields_many {step : Reading α} {P : α → Prop} (h : Yields step P) (n : Nat) :
    Yields (many step n) fun as => ∀ a ∈ as, P a := by
  induction n with
  | zero => exact yields_pure (by simp)
  | succ n ih =>
    refine h.bind fun a ha => ih.bind fun as has => yields_pure ?_
    simpa using ⟨ha, has⟩

theorem yields_length_many (step : Reading α) (n : Nat) :
    Yields (many step n) fun as => as.length = n := by
  induction n with
  | zero => exact yields_pure rfl
  | succ n ih =>
    exact yields_bind fun a => ih.bind fun as has => yields_pure (by rw [List.length_cons, has])

/-- Reading one value for each item of a list. The values stand to the items as single ones do. -/
theorem yields_each {step : β → Reading α} {P : β → α → Prop} (h : ∀ b, Yields (step b) (P b))
    (bs : List β) : Yields (each step bs) (List.Forall₂ P bs) := by
  induction bs with
  | nil => exact yields_pure .nil
  | cons b bs ih => exact (h b).bind fun a ha => ih.bind fun as has => yields_pure (.cons ha has)

/-- A reading that ended well, from its outcome. -/
theorem Yields.of_exec {step : Reading α} {P : α → Prop} (h : Yields step P) {r : Reader} {a : α}
    (hr : (step.exec r).1 = .ok a) : P a :=
  h r a (step.exec r).2 (Prod.ext hr rfl)

end Reader

end FlatSql
