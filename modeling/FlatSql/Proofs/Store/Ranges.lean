import FlatSql.Proofs.Atomic
import FlatSql.Store.Memory

/-!
# Ranges of bytes

What a write leaves is said place by place: the range holds the data, a gap before it holds zeros,
and every other place holds what it held. A place past the end counts as a zero, so that a gap needs
no case of its own.

In memory this is what a write does wherever its range ends below the greatest length of an array.
From there on the end is computed but no array reaches it, and the write neither stores the data nor
is refused: a caller that expects one of the two is wrong about exactly these ranges.

## Main definitions

* `byteAt` — the byte at a place
* `rangeOf`, `resized`, `written` — reading, resizing and writing, place by place
* `MemoryStore.Stores`, `MemoryStore.Safe` — a write that stores its data, and one that does so or
  is refused

## Main results

* `resizeBytes_eq`, `overwriteBytes_eq` — how arrays of bytes are changed, place by place
* `MemoryStore.exec_read`, `MemoryStore.exec_write`, `MemoryStore.exec_truncate` — what calls give
* `MemoryStore.write_exact` — a write stores its data exactly where an array reaches its end
-/

namespace FlatSql

/-! ### Places -/

/-- The byte at a place, with zeros past the end. This is what a gap before a write is filled with.
-/
def byteAt (bytes : List UInt8) (i : Nat) : UInt8 := bytes.getD i 0

theorem byteAt_of_length_le {bytes : List UInt8} {i : Nat} (h : bytes.length ≤ i) :
    byteAt bytes i = 0 := by
  simp [byteAt, List.getD_eq_getElem?_getD, h]

theorem byteAt_append (a b : List UInt8) (i : Nat) :
    byteAt (a ++ b) i = if i < a.length then byteAt a i else byteAt b (i - a.length) := by
  simp only [byteAt, List.getD_eq_getElem?_getD, List.getElem?_append]
  split <;> rfl

theorem byteAt_take (bytes : List UInt8) (n i : Nat) :
    byteAt (bytes.take n) i = if i < n then byteAt bytes i else 0 := by
  simp only [byteAt, List.getD_eq_getElem?_getD, List.getElem?_take]
  split <;> rfl

theorem byteAt_drop (bytes : List UInt8) (n i : Nat) :
    byteAt (bytes.drop n) i = byteAt bytes (n + i) := by
  simp only [byteAt, List.getD_eq_getElem?_getD, List.getElem?_drop]

theorem byteAt_replicate_zero (n i : Nat) : byteAt (List.replicate n 0) i = 0 := by
  simp only [byteAt, List.getD_eq_getElem?_getD, List.getElem?_replicate]
  split <;> rfl

/-- Arrays of one length that agree at every place are equal. The facts about ranges below are
proved place by place. -/
theorem ext_byteAt {a b : List UInt8} (hl : a.length = b.length)
    (h : ∀ i < a.length, byteAt a i = byteAt b i) : a = b := by
  refine List.ext_getElem hl fun i hi hi' => ?_
  simpa [byteAt, List.getD_eq_getElem?_getD, hi, hi'] using h i hi

/-! ### Reading, resizing and writing -/

/-- The bytes of a range. Where it passes the end, it goes on with zeros. -/
def rangeOf (bytes : List UInt8) (offset length : Nat) : List UInt8 :=
  (List.range length).map fun i => byteAt bytes (offset + i)

/-- The bytes with a new length: cut, or filled up with zeros. Places that are kept hold what they
held. -/
def resized (bytes : List UInt8) (length : Nat) : List UInt8 :=
  (List.range length).map (byteAt bytes)

/-- The bytes with data in the place of a range, which may pass the end. A gap between the end and
the range is part of the result, as zeros. -/
def written (bytes : List UInt8) (offset : Nat) (data : List UInt8) : List UInt8 :=
  (List.range (max bytes.length (offset + data.length))).map fun i =>
    if offset ≤ i ∧ i < offset + data.length then byteAt data (i - offset) else byteAt bytes i

theorem byteAt_map_range (f : Nat → UInt8) {n i : Nat} (h : i < n) :
    byteAt ((List.range n).map f) i = f i := by
  simp [byteAt, List.getD_eq_getElem?_getD, h]

@[simp] theorem length_rangeOf (bytes : List UInt8) (offset length : Nat) :
    (rangeOf bytes offset length).length = length := by
  simp [rangeOf]

@[simp] theorem length_resized (bytes : List UInt8) (length : Nat) :
    (resized bytes length).length = length := by
  simp [resized]

@[simp] theorem length_written (bytes : List UInt8) (offset : Nat) (data : List UInt8) :
    (written bytes offset data).length = max bytes.length (offset + data.length) := by
  simp [written]

/-- Outside the range nothing changes, and a gap holds zeros. Both are told by `byteAt`, which is
zero past the end. -/
theorem byteAt_written_outside (bytes : List UInt8) {offset i : Nat} (data : List UInt8)
    (h : i < offset ∨ offset + data.length ≤ i) :
    byteAt (written bytes offset data) i = byteAt bytes i := by
  by_cases hi : i < max bytes.length (offset + data.length)
  · rw [written, byteAt_map_range _ hi, if_neg (by omega)]
  · rw [byteAt_of_length_le (by simpa using hi), byteAt_of_length_le (by omega)]

theorem rangeOf_eq_take_drop {bytes : List UInt8} {offset length : Nat}
    (h : offset + length ≤ bytes.length) :
    rangeOf bytes offset length = (bytes.drop offset).take length := by
  refine ext_byteAt (by simp; omega) fun i hi => ?_
  rw [length_rangeOf] at hi
  rw [rangeOf, byteAt_map_range _ hi, byteAt_take, if_pos hi, byteAt_drop]

/-- The range that has been written holds the data. What was there before does not matter. -/
theorem rangeOf_written (bytes : List UInt8) (offset : Nat) (data : List UInt8) :
    rangeOf (written bytes offset data) offset data.length = data := by
  refine ext_byteAt (by simp) fun i hi => ?_
  rw [length_rangeOf] at hi
  rw [rangeOf, byteAt_map_range _ hi, written, byteAt_map_range _ (by omega), if_pos (by omega)]
  congr 1
  omega

theorem resizeBytes_eq (bytes : List UInt8) (length : Nat) :
    resizeBytes bytes length = resized bytes length := by
  refine ext_byteAt (by simp) fun i hi => ?_
  rw [length_resizeBytes] at hi
  rw [resized, byteAt_map_range _ hi, resizeBytes, byteAt_append]
  split
  · rw [byteAt_take, if_pos hi]
  · next h =>
    rw [byteAt_replicate_zero, byteAt_of_length_le]
    simp at h
    omega

theorem overwriteBytes_eq {bytes data : List UInt8} {offset : Nat}
    (h : offset + data.length ≤ bytes.length) :
    overwriteBytes bytes offset data = written bytes offset data := by
  refine ext_byteAt (by rw [length_overwriteBytes h, length_written]; omega) fun i hi => ?_
  rw [length_overwriteBytes h] at hi
  rw [written, byteAt_map_range _ (by omega), overwriteBytes, List.append_assoc, byteAt_append,
    byteAt_append, List.length_take, Nat.min_eq_left (by omega)]
  split
  · next hlow =>
    rw [byteAt_take, if_pos hlow, if_neg (by omega)]
  · next hlow =>
    split
    · next hin => rw [if_pos (by omega)]
    · next hin =>
      rw [byteAt_drop, if_neg (by omega)]
      congr 1
      omega

/-- Room made with zeros before a write does not show after it. The data covers the room or leaves
the gap that is zeros anyway. -/
theorem written_resized {bytes data : List UInt8} {offset : Nat}
    (h : bytes.length < offset + data.length) :
    written (resized bytes (offset + data.length)) offset data = written bytes offset data := by
  refine ext_byteAt (by simp; omega) fun i hi => ?_
  simp only [length_written, length_resized, Nat.max_self] at hi
  simp only [written, length_resized, Nat.max_self]
  rw [byteAt_map_range _ hi, byteAt_map_range _ (by omega), resized, byteAt_map_range _ hi]

/-! ### Memory -/

namespace MemoryStore

variable {s : MemoryStore} {data : List UInt8} {offset length : Nat}

theorem exec_read (s : MemoryStore) (offset length : Nat) : (read offset length).exec s =
    Action.settle s (
      if length = 0 then .error (.readFailed .emptyRead)
      else if s.isOpen = false then .error (.readFailed closed)
      else if s.bytes.length < offset + length then .error (.readFailed (.pastEnd length offset))
      else .ok (rangeOf s.bytes offset length, s)) := by
  by_cases hl : length = 0
  · simp [read, hl]
  cases ho : s.isOpen
  · simp [read, hl, ho]
  by_cases hp : s.bytes.length < offset + length
  · simp [read, hl, ho, hp]
  · simp [read, hl, ho, hp, rangeOf_eq_take_drop (Nat.le_of_not_lt hp)]

theorem exec_write (s : MemoryStore) (offset : Nat) (data : List UInt8) :
    (write offset data).exec s = Action.settle s (
      if data = [] then .error (.writeFailed .emptyWrite)
      else if s.isOpen = false then .error (.writeFailed closed)
      else if addressLimit ≤ offset + data.length then
        .error (.addressOverflow data.length offset)
      else .ok ((), { s with bytes := written s.bytes offset data })) := by
  by_cases hne : data = []
  · simp [write, hne]
  cases ho : s.isOpen
  · simp [write, hne, ho]
  by_cases hl : addressLimit ≤ offset + data.length
  · simp [write, hne, ho, hl]
  by_cases hroom : s.bytes.length < offset + data.length
  · simp [write, hne, ho, hl, hroom, overwriteBytes_eq, resizeBytes_eq, written_resized]
  · simp [write, hne, ho, hl, hroom, overwriteBytes_eq (Nat.le_of_not_lt hroom)]

theorem exec_truncate (s : MemoryStore) (length : Nat) : (truncate length).exec s =
    Action.settle s (
      if s.isOpen = false then .error (.writeFailed closed)
      else if addressLimit ≤ length then .error (.addressOverflow length 0)
      else .ok ((), { s with bytes := resized s.bytes length })) := by
  cases ho : s.isOpen
  · simp [truncate, ho]
  by_cases hl : addressLimit ≤ length
  · simp [truncate, ho, hl]
  · simp [truncate, ho, hl, resizeBytes_eq]

/-- A write stores its data: they can be read back, and every byte outside their range is what it
was, or a zero where the array was extended. -/
structure Stores (s : MemoryStore) (offset : Nat) (data : List UInt8) (s' : MemoryStore) :
    Prop where
  exec_write : (write offset data).exec s = (.ok (), s')
  exec_read : (read offset data.length).exec s' = (.ok data, s')
  length_eq : s'.bytes.length = max s.bytes.length (offset + data.length)
  outside : ∀ i, i < offset ∨ offset + data.length ≤ i → byteAt s'.bytes i = byteAt s.bytes i

/-- A write stores its data, or is refused and leaves the bytes as they are. It does nothing else.
-/
def Safe (s : MemoryStore) (offset : Nat) (data : List UInt8) : Prop :=
  (∃ fault, (write offset data).exec s = (.error (.writeFailed fault), s)) ∨
    ∃ s', s.Stores offset data s'

theorem exec_write_of_lt (ho : s.isOpen = true) (hne : data ≠ [])
    (hl : offset + data.length < addressLimit) :
    (write offset data).exec s = (.ok (), { s with bytes := written s.bytes offset data }) := by
  rw [exec_write, if_neg hne, if_neg (by simp [ho]), if_neg (Nat.not_le_of_lt hl)]
  rfl

theorem stores_written (ho : s.isOpen = true) (hne : data ≠ [])
    (hl : offset + data.length < addressLimit) :
    s.Stores offset data { s with bytes := written s.bytes offset data } where
  exec_write := exec_write_of_lt ho hne hl
  exec_read := by
    have hend : ¬ (written s.bytes offset data).length < offset + data.length := by
      rw [length_written]
      omega
    rw [exec_read, if_neg (by simpa using hne), if_neg (by simp [ho]), if_neg hend,
      rangeOf_written]
    rfl
  length_eq := length_written _ _ _
  outside _ h := byteAt_written_outside _ _ h

/-- The end of a range that no array reaches is computed all the same. It is no machine word, and
the write breaks off. -/
theorem exec_write_of_le (ho : s.isOpen = true) (hne : data ≠ [])
    (hl : addressLimit ≤ offset + data.length) :
    (write offset data).exec s = (.error (.addressOverflow data.length offset), s) := by
  rw [exec_write, if_neg hne, if_neg (by simp [ho]), if_pos hl]
  rfl

theorem not_safe_of_le (ho : s.isOpen = true) (hne : data ≠ [])
    (hl : addressLimit ≤ offset + data.length) : ¬ s.Safe offset data := by
  have hover := exec_write_of_le ho hne hl
  rintro (⟨fault, hrefused⟩ | ⟨s', hstores⟩)
  · cases hover.symm.trans hrefused
  · cases hover.symm.trans hstores.exec_write

/-- **A write stores its data exactly where an array reaches its end.** From there on they are
neither stored nor refused as a failed write. -/
theorem write_exact (ho : s.isOpen = true) (offset : Nat) (hne : data ≠ []) :
    (offset + data.length < addressLimit → ∃ s', s.Stores offset data s') ∧
      (addressLimit ≤ offset + data.length → ¬ s.Safe offset data) := by
  constructor
  · intro hl
    exact ⟨_, stores_written ho hne hl⟩
  · intro hl
    exact not_safe_of_le ho hne hl

/-- Two bytes behind a gap, and one byte at the last offset. The first write is stored and the
second is not safe. -/
theorem write_exact_gap : (∃ s', (ofBytes [7]).Stores 2 [8, 9] s') ∧
    ¬ (ofBytes [7]).Safe (Nat.pow 2 64 - 1) [8] :=
  ⟨(write_exact rfl 2 (by decide)).1 (by decide),
    (write_exact rfl (Nat.pow 2 64 - 1) (by decide)).2 (by decide)⟩

/-- One byte at the last offset that a word of 64 bits holds is neither stored nor refused. The
store is open, and the offset itself is a word. -/
theorem not_safe_lastOffset : (ofBytes []).isOpen = true ∧ Nat.pow 2 64 - 1 < Nat.pow 2 64 ∧
    ¬ (ofBytes []).Safe (Nat.pow 2 64 - 1) [0] :=
  ⟨rfl, by decide, not_safe_of_le rfl (by decide) (by decide)⟩

end MemoryStore

end FlatSql
