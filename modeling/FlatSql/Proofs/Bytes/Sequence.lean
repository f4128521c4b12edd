import FlatSql.Proofs.Bytes.Reads
import FlatSql.Proofs.Table.Sizes

/-!
# Sequences of data

Stored bytes are written through one buffer and read through one reader, and both outlive each
single datum. A datum is put behind whatever the buffer holds, and a refused one leaves the buffer.
Reading goes on from wherever the reader stands, also after a failure: a run whose bytes are missing
has its length behind it, and a text that is not UTF-8 has been passed as a whole. Nothing in a
sequence of reads says how the bytes were divided when they were written.

What was put is read back by reads of the same shapes, whatever stands after it. Where the shapes
are others, or the bytes are any, little can be said of the outcomes, but the reader still moves in
one direction over the bytes it was given: `Reader.LeadsTo` relates two places of a reader, and
every step leads on from where it starts, whether it ends well or not.

## Main definitions

* `Writing`, `Datum.putAll` — data put into one buffer
* `Reader.outcomes` — reads one after another, failing ones included
* `Reader.LeadsTo` — what lies between two places of a reader
* `Reader.Forward` — a step leads on, also when it fails

## Main results

* `Datum.exec_putAll` — the buffer after data that have bytes
* `Reader.outcomes_map_shape` — what was put is read back
* `Reader.Forward.bind`, `Reader.forward_datum`, `Reader.leadsTo_outcomes` — steps, data, sequences
* `Reader.outcomes_framed` — both, for all data and for all bytes
-/

namespace FlatSql

/-- Writing steps, on the bytes written so far. They only ever add to them. -/
abbrev Writing := Action TableError (List UInt8)

namespace Datum

/-! ### Data put into one buffer -/

/-- Puts a datum behind the bytes written so far; a refused one leaves them. -/
def put (d : Datum) : Writing Unit := do
  let bytes ← Action.ofExcept d.encode?
  modify (· ++ bytes)

/-- Puts data one after another, up to the first that is refused. What was put before that stays. -/
def putAll (ds : List Datum) : Writing Unit := forM ds put

theorem exec_put_of_ok {d : Datum} {bytes : List UInt8} (h : d.encode? = .ok bytes)
    (written : List UInt8) : d.put.exec written = (.ok (), written ++ bytes) := by
  rw [put, h, Action.exec_ofExcept_ok_bind, Action.exec_modify]

theorem encodeAll?_eq_encodeEach (ds : List Datum) : encodeAll? ds = encodeEach encode? ds := by
  induction ds with
  | nil => rfl
  | cons d ds ih => rw [encodeAll?, encodeEach, ih]

theorem encodeAll?_cons_eq_ok_iff {d : Datum} {ds : List Datum} {bytes : List UInt8} :
    encodeAll? (d :: ds) = .ok bytes ↔
      ∃ b bs, d.encode? = .ok b ∧ encodeAll? ds = .ok bs ∧ bytes = b ++ bs := by
  rw [encodeAll?_eq_encodeEach, encodeAll?_eq_encodeEach, Reader.encodeEach_cons_eq_ok_iff]

/-- Data put one after another stand in the buffer one after another, behind what was there. -/
theorem exec_putAll {ds : List Datum} {bytes : List UInt8} (h : encodeAll? ds = .ok bytes)
    (written : List UInt8) : (putAll ds).exec written = (.ok (), written ++ bytes) := by
  induction ds generalizing bytes written with
  | nil =>
    obtain rfl := Except.ok.inj h
    rw [List.append_nil]
    rfl
  | cons d ds ih =>
    obtain ⟨b, bs, hb, hbs, rfl⟩ := encodeAll?_cons_eq_ok_iff.mp h
    rw [putAll, List.forM_cons, Action.exec_bind_of_ok (exec_put_of_ok hb written), ← putAll,
      ih hbs, List.append_assoc]

/-- The length that is written before a datum; data of fixed size have none, and so nothing that
could be too long. -/
def runLength : Datum → Nat
  | run bytes => bytes.length
  | text s => (Utf8.encode s).length
  | _ => 0

/-- Only a length can refuse a datum, and only one that has no word. -/
theorem exists_encode {d : Datum} (h : d.runLength < lengthLimit) :
    ∃ bytes, d.encode? = .ok bytes := by
  cases d with
  | byte b => exact ⟨_, rfl⟩
  | word n => exact ⟨_, rfl⟩
  | signedWord n => exact ⟨_, rfl⟩
  | float x => exact ⟨_, rfl⟩
  | run bytes => exact exists_encodeRun h
  | text s => exact exists_encodeText h

theorem exists_encodeAll {ds : List Datum} (h : ∀ d ∈ ds, d.runLength < lengthLimit) :
    ∃ bytes, encodeAll? ds = .ok bytes := by
  rw [encodeAll?_eq_encodeEach]
  exact exists_encodeEach fun d hd => exists_encode (h d hd)

end Datum

namespace Reader

variable {α β : Type}

/-! ### Reads one after another -/

/-- Reads data of given shapes one after another, each from where the one before it stopped, whether
that one succeeded or failed: the outcomes, and the reader behind the last. -/
def outcomes : List Shape → Reader → List (Except Corruption Datum) × Reader
  | [], r => ([], r)
  | s :: shapes, r =>
    let (outcome, r') := (datum s).exec r
    let (more, r'') := outcomes shapes r'
    (outcome :: more, r'')

theorem outcomes_cons (s : Shape) (shapes : List Shape) (r : Reader) :
    outcomes (s :: shapes) r =
      (((datum s).exec r).1 :: (outcomes shapes ((datum s).exec r).2).1,
        (outcomes shapes ((datum s).exec r).2).2) := rfl

/-- The later reads of a sequence go on from where the earlier ones stopped, whether or not these
failed. -/
theorem outcomes_append_snd (earlier later : List Shape) (r : Reader) :
    (outcomes (earlier ++ later) r).2 = (outcomes later (outcomes earlier r).2).2 := by
  induction earlier generalizing r with
  | nil => rfl
  | cons s shapes ih => rw [List.cons_append, outcomes_cons, outcomes_cons, ih]

/-- **What was put is read back**, wherever the reader stands and whatever comes after. -/
theorem outcomes_map_shape {ds : List Datum} {bytes : List UInt8}
    (h : Datum.encodeAll? ds = .ok bytes) (rest : List UInt8) (position : Nat) :
    outcomes (ds.map Datum.shape) ⟨bytes ++ rest, position⟩ =
      (ds.map .ok, ⟨rest, position + bytes.length⟩) := by
  induction ds generalizing bytes position with
  | nil =>
    obtain rfl := Except.ok.inj h
    rfl
  | cons d ds ih =>
    obtain ⟨b, bs, hb, hbs, rfl⟩ := Datum.encodeAll?_cons_eq_ok_iff.mp h
    have hd : (datum d.shape).exec ⟨b ++ bs ++ rest, position⟩ =
        (.ok d, ⟨bs ++ rest, position + b.length⟩) := by
      rw [List.append_assoc]
      exact reads_datum hb (bs ++ rest) position
    rw [List.map_cons, outcomes_cons, hd, ih hbs, List.length_append, Nat.add_assoc]
    rfl

/-! ### Places of a reader -/

/-- Between the first place and the second lie bytes that were ahead of the first, and as many are
counted. -/
def LeadsTo (r r' : Reader) : Prop :=
  ∃ passed, r.rest = passed ++ r'.rest ∧ r'.position = r.position + passed.length

namespace LeadsTo

variable {r r' r'' : Reader}

theorem refl (r : Reader) : r.LeadsTo r := ⟨[], rfl, rfl⟩

theorem trans (h : r.LeadsTo r') (h' : r'.LeadsTo r'') : r.LeadsTo r'' := by
  obtain ⟨passed, hrest, hposition⟩ := h
  obtain ⟨more, hrest', hposition'⟩ := h'
  refine ⟨passed ++ more, ?_, ?_⟩
  · rw [hrest, hrest', List.append_assoc]
  · rw [hposition', hposition, List.length_append, Nat.add_assoc]

theorem position_le (h : r.LeadsTo r') : r.position ≤ r'.position := by
  obtain ⟨passed, -, hposition⟩ := h
  exact hposition ▸ Nat.le_add_right _ _

end LeadsTo

/-- A place in given bytes is told by its position: so many bytes are behind it, and the others are
ahead. -/
theorem leadsTo_ofBytes_iff {data : List UInt8} {r : Reader} :
    (ofBytes data).LeadsTo r ↔ r.position ≤ data.length ∧ r.rest = data.drop r.position := by
  constructor
  · rintro ⟨passed, hrest, hposition⟩
    obtain rfl : data = passed ++ r.rest := hrest
    obtain hlen : r.position = passed.length := hposition.trans (Nat.zero_add _)
    rw [hlen, List.drop_left]
    exact ⟨by simp, rfl⟩
  · rintro ⟨hle, hrest⟩
    refine ⟨data.take r.position, ?_, ?_⟩
    · rw [hrest]
      exact (List.take_append_drop _ _).symm
    · rw [List.length_take_of_le hle]
      exact (Nat.zero_add _).symm

/-! ### Steps lead on -/

/-- Wherever it starts, the step leads on from there, also when it fails: no byte is read twice and
none is skipped unread. -/
def Forward (step : Reading α) : Prop :=
  ∀ r : Reader, r.LeadsTo (step.exec r).2

theorem forward_pure (a : α) : Forward (pure a) := fun r => .refl r

theorem forward_throw (cause : Corruption) : Forward (throw cause : Reading α) := fun r => .refl r

/-- A failure of the second step keeps what the first has passed, and so does not go back. -/
theorem Forward.bind {step : Reading α} {next : α → Reading β} (h : Forward step)
    (h' : ∀ a, Forward (next a)) : Forward (step >>= next) := by
  intro r
  have hr := h r
  rcases hs : step.exec r with ⟨cause | a, r₁⟩
  · rw [hs] at hr
    rw [Action.exec_bind_of_error hs]
    exact hr
  · rw [hs] at hr
    rw [Action.exec_bind_of_ok hs]
    exact hr.trans (h' a r₁)

theorem Forward.map {step : Reading α} (h : Forward step) (f : α → β) : Forward (f <$> step) := by
  intro r
  rw [Action.exec_map]
  exact h r

theorem forward_get : Forward (get : Reading Reader) := fun r => .refl r

theorem forward_take (n : Nat) : Forward (take n) := by
  intro r
  rw [exec_take]
  split
  · next hn =>
    exact ⟨r.rest.take n, (List.take_append_drop n r.rest).symm, by rw [List.length_take_of_le hn]⟩
  · exact .refl r

theorem forward_byte : Forward byte := (forward_take 1).bind fun _ => forward_pure _

theorem forward_word : Forward word := (forward_take 4).bind fun _ => forward_pure _

theorem forward_signedWord : Forward signedWord := forward_word.bind fun _ => forward_pure _

theorem forward_float : Forward float := (forward_take 8).bind fun _ => forward_pure _

theorem forward_run : Forward run := forward_word.bind fun n => forward_take n.toNat

theorem forward_text : Forward text := by
  refine forward_get.bind fun start => forward_run.bind fun bytes => ?_
  cases Utf8.decode? bytes with
  | some s => exact forward_pure s
  | none => exact forward_throw _

theorem forward_datum (s : Shape) : Forward (datum s) := by
  cases s with
  | byte => exact forward_byte.map _
  | word => exact forward_word.map _
  | signedWord => exact forward_signedWord.map _
  | float => exact forward_float.map _
  | run => exact forward_run.map _
  | text => exact forward_text.map _

/-- Reads one after another lead on, whichever of them fail. The induction is on the shapes, with
any reader to start from. -/
theorem leadsTo_outcomes (shapes : List Shape) (r : Reader) : r.LeadsTo (outcomes shapes r).2 := by
  induction shapes generalizing r with
  | nil => exact .refl r
  | cons s shapes ih =>
    rw [outcomes_cons]
    exact (forward_datum s r).trans (ih _)

/-- A text that is not UTF-8, then a run whose bytes are missing: reading goes on behind the one and
behind the length of the other. -/
example : ((outcomes [.text, .run, .byte] (ofBytes [1, 0, 0, 0, 255, 9, 0, 0, 0, 7])).1.map
      (·.toOption),
    (outcomes [.text, .run, .byte] (ofBytes [1, 0, 0, 0, 255, 9, 0, 0, 0, 7])).2) =
    ([none, none, some (.byte 7)], ⟨[], 10⟩) := by decide +kernel

/-- **What was put is read back, and no reading leaves the bytes.** Data whose lengths have words
can all be put into one buffer, and whatever bytes come after it, reads of the same shapes give the
data and leave exactly those bytes. For any bytes and any shapes, however the reads end, the
position never decreases and stays within the bytes; those ahead are the ones from the position on,
so that position and remainder always make up the whole. -/
theorem outcomes_framed :
    (∀ ds : List Datum, (∀ d ∈ ds, d.runLength < lengthLimit) →
      ∃ bytes, (Datum.putAll ds).exec [] = (.ok (), bytes) ∧
        ∀ suffix, outcomes (ds.map Datum.shape) (ofBytes (bytes ++ suffix)) =
          (ds.map .ok, ⟨suffix, bytes.length⟩)) ∧
    ∀ (data : List UInt8) (earlier later : List Shape),
      let r := (outcomes earlier (ofBytes data)).2
      let r' := (outcomes (earlier ++ later) (ofBytes data)).2
      r.position ≤ r'.position ∧ r'.position ≤ data.length ∧
        r'.rest = data.drop r'.position ∧ r'.position + r'.remaining = data.length := by
  refine ⟨fun ds hfit => ?_, fun data earlier later => ?_⟩
  · obtain ⟨bytes, hbytes⟩ := Datum.exists_encodeAll hfit
    refine ⟨bytes, Datum.exec_putAll hbytes [], fun suffix => ?_⟩
    rw [ofBytes, outcomes_map_shape hbytes, Nat.zero_add]
  · intro r r'
    have hmore : r.LeadsTo r' := by
      have h := leadsTo_outcomes later r
      rwa [← outcomes_append_snd] at h
    have hstart : (ofBytes data).LeadsTo r' := leadsTo_outcomes (earlier ++ later) (ofBytes data)
    obtain ⟨hle, hrest⟩ := leadsTo_ofBytes_iff.mp hstart
    refine ⟨hmore.position_le, hle, hrest, ?_⟩
    rw [remaining, hrest, List.length_drop]
    exact Nat.add_sub_of_le hle

/-- Data of every shape: both ends of the words, a NaN with a payload, a run that could be a length,
a text with a long character and a zero, and a run without bytes. -/
def mixedData : List Datum :=
  [.byte 255, .word 4294967295, .signedWord (-2147483648), .float ⟨0x7FF8000000000001⟩,
    .run [1, 0, 0, 0], .text "é\x00", .run [], .signedWord (-1)]

/-- The bytes of `mixedData`, one datum to a list. -/
def mixedBytes : List UInt8 :=
  [255] ++ [255, 255, 255, 255] ++ [0, 0, 0, 128] ++ [1, 0, 0, 0, 0, 0, 0xF8, 0x7F] ++
    [4, 0, 0, 0, 1, 0, 0, 0] ++ [3, 0, 0, 0, 0xC3, 0xA9, 0] ++ [0, 0, 0, 0] ++ [255, 255, 255, 255]

/-- The data are read back from their bytes, and what follows could be a datum itself. -/
theorem outcomes_framed_mixed :
    (∀ d ∈ mixedData, d.runLength < lengthLimit) ∧
    (Datum.putAll mixedData).exec [] = (.ok (), mixedBytes) ∧
    outcomes (mixedData.map Datum.shape) (ofBytes (mixedBytes ++ [1, 0, 0, 0, 65])) =
      (mixedData.map .ok, ⟨[1, 0, 0, 0, 65], mixedBytes.length⟩) := by
  have hfit : ∀ d ∈ mixedData, d.runLength < lengthLimit := by decide +kernel
  have hwritten : ((Datum.putAll mixedData).exec []).2 = mixedBytes := by decide +kernel
  obtain ⟨bytes, hput, hread⟩ := outcomes_framed.1 mixedData hfit
  rw [hput] at hwritten
  obtain rfl : bytes = mixedBytes := hwritten
  exact ⟨hfit, hput, hread [1, 0, 0, 0, 65]⟩

end Reader

end FlatSql
