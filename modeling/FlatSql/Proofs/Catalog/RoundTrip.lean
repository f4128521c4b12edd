import FlatSql.Catalog.Basic
import FlatSql.Proofs.Table.Loaded

/-!
# Directories are read back from their images

An image lists the tables in ascending order of names and each under its own name. Reading puts them
into a directory one after another, and since a directory is determined by what it has under each
name, the order in which they are put does not matter in the end.

## Main definitions

* `Directory.All` — every table has a property
* `Directory.Sound` — every table is sound and stands under its own name

## Main results

* `Directory.Sound.decode?_encode` — a sound directory is read back from its image as it is
* `Directory.sound_of_decode?` — directories that are read are sound
-/

namespace FlatSql

namespace Directory

variable {d : Directory} {t : Table} {name : String}

/-- Every table has a property, together with its name. Insertion and removal keep such properties,
whatever they are. -/
def All (P : String → Table → Prop) (d : Directory) : Prop :=
  ∀ (name : String) (t : Table), d[name]? = some t → P name t

/-- Every table is sound and stands under its own name. It is the invariant of directories. -/
def Sound (d : Directory) : Prop :=
  ∀ (name : String) (t : Table), d[name]? = some t → t.name = name ∧ t.Sound

/-! ### Changing one table -/

theorem getElem?_insert (d : Directory) (name : String) (t : Table) (other : String) :
    (d.insert name t)[other]? = if name = other then some t else d[other]? := by
  rw [Std.ExtTreeMap.getElem?_insert]
  simp only [Std.compare_eq_iff_eq]

theorem getElem?_erase (d : Directory) (name other : String) :
    (d.erase name)[other]? = if name = other then none else d[other]? := by
  rw [Std.ExtTreeMap.getElem?_erase]
  simp only [Std.compare_eq_iff_eq]

/-- Putting back what is there changes nothing. -/
theorem insert_eq_self (h : d[name]? = some t) : d.insert name t = d := by
  apply Std.ExtTreeMap.ext_getElem?
  intro other
  rw [getElem?_insert]
  split
  · next heq => rw [← heq, h]
  · rfl

section All

variable {P : String → Table → Prop}

theorem all_empty : All P ∅ := by
  intro name t h
  simp at h

theorem All.insert (h : d.All P) (ht : P name t) : All P (d.insert name t) := by
  intro other t' ht'
  rw [getElem?_insert] at ht'
  split at ht'
  · next heq =>
    obtain rfl := Option.some.inj ht'
    exact heq ▸ ht
  · exact h other t' ht'

theorem All.erase (h : d.All P) (name : String) : All P (d.erase name) := by
  intro other t' ht'
  rw [getElem?_erase] at ht'
  split at ht'
  · cases ht'
  · exact h other t' ht'

end All

theorem sound_empty : Sound ∅ := all_empty

theorem Sound.insert (h : d.Sound) (hn : t.name = name) (ht : t.Sound) :
    Sound (d.insert name t) := All.insert h ⟨hn, ht⟩

/-! ### The bytes of a directory -/

/-- The bytes of a table under a name are those of the name and of the table, the latter as a run.
-/
theorem encodeEntry_eq_ok_iff {entry : String × Table} {bytes : List UInt8} :
    encodeEntry entry = .ok bytes ↔ ∃ name table run, encodeText entry.1 = .ok name ∧
      entry.2.encode? = .ok table ∧ encodeRun table = .ok run ∧ name ++ run = bytes := by
  constructor
  · intro h
    obtain ⟨name, hname, h⟩ := Except.bind_eq_ok_iff.mp h
    obtain ⟨table, htable, h⟩ := Except.bind_eq_ok_iff.mp h
    obtain ⟨run, hrun, h⟩ := Except.bind_eq_ok_iff.mp h
    exact ⟨name, table, run, hname, htable, hrun, Except.ok.inj h⟩
  · rintro ⟨name, table, run, hname, htable, hrun, rfl⟩
    exact Except.bind_eq_ok_iff.mpr ⟨name, hname, Except.bind_eq_ok_iff.mpr ⟨table, htable,
      Except.bind_eq_ok_iff.mpr ⟨run, hrun, rfl⟩⟩⟩

/-- An image is the number of tables and the tables under their names. It is refused just if one of
these is. -/
theorem encode?_eq_ok_iff {image : List UInt8} : d.encode? = .ok image ↔
    ∃ count entries, wordOfLength d.size = .ok count ∧
      encodeEach encodeEntry d.toList = .ok entries ∧ encodeWord count ++ entries = image := by
  constructor
  · intro h
    obtain ⟨count, hcount, h⟩ := Except.bind_eq_ok_iff.mp h
    obtain ⟨entries, hentries, h⟩ := Except.bind_eq_ok_iff.mp h
    exact ⟨count, entries, hcount, hentries, Except.ok.inj h⟩
  · rintro ⟨count, entries, hcount, hentries, rfl⟩
    exact Except.bind_eq_ok_iff.mpr
      ⟨count, hcount, Except.bind_eq_ok_iff.mpr ⟨entries, hentries, rfl⟩⟩

/-! ### Putting tables one after another -/

/-- What a directory has after tables with distinct names were put into it: these tables, and what
it had under other names. -/
theorem getElem?_foldl_put {l : List (String × Table)} (hname : ∀ p ∈ l, p.2.name = p.1)
    (hl : (l.map Prod.fst).Nodup) (d : Directory) :
    (l.foldl (fun d p => d.put p.2) d)[name]? = some t ↔
      (name, t) ∈ l ∨ name ∉ l.map Prod.fst ∧ d[name]? = some t := by
  induction l generalizing d with
  | nil => simp
  | cons p l ih =>
    obtain ⟨key, t₁⟩ := p
    obtain rfl : t₁.name = key := hname _ List.mem_cons_self
    rw [List.map_cons, List.nodup_cons] at hl
    rw [List.foldl_cons, ih (fun q hq => hname q (List.mem_cons_of_mem _ hq)) hl.2,
      put, getElem?_insert]
    simp only [List.mem_cons, Prod.mk.injEq, List.map_cons, not_or]
    by_cases hk : t₁.name = name
    · subst hk
      have hnone : (t₁.name, t) ∉ l := fun hmem => hl.1 (List.mem_map.mpr ⟨_, hmem, rfl⟩)
      simp [hnone, hl.1, eq_comm]
    · simp [hk, Ne.symm hk]

theorem nodup_map_fst_toList (d : Directory) : (d.toList.map Prod.fst).Nodup := by
  rw [Std.ExtTreeMap.map_fst_toList_eq_keys]
  exact Std.ExtTreeMap.nodup_keys

/-- Putting the tables of a directory into an empty one gives the directory. -/
theorem foldl_put_toList (h : d.Sound) : d.toList.foldl (fun d p => d.put p.2) ∅ = d := by
  have hname : ∀ p ∈ d.toList, p.2.name = p.1 := fun p hp =>
    (h p.1 p.2 (Std.ExtTreeMap.mem_toList_iff_getElem?_eq_some.mp hp)).1
  apply Std.ExtTreeMap.ext_getElem?
  intro name
  apply Option.ext
  intro t
  rw [getElem?_foldl_put hname (nodup_map_fst_toList d),
    Std.ExtTreeMap.mem_toList_iff_getElem?_eq_some]
  simp

end Directory

namespace Reader

/-! ### Reading what was written -/

theorem reads_entry {name : String} {t : Table} {bytes : List UInt8} (hn : t.name = name)
    (ht : t.Sound) (h : Directory.encodeEntry (name, t) = .ok bytes) : Reads entry bytes t := by
  obtain ⟨nameBytes, tableBytes, runBytes, hname, htable, hrun, rfl⟩ :=
    Directory.encodeEntry_eq_ok_iff.mp h
  refine (reads_text hname).bind ?_
  intro rest position
  rw [Action.exec_bind_of_ok (reads_run hrun rest position), ht.decode?_encode htable,
    Action.exec_ofExcept_ok_bind]
  simp [hn]

/-- Tables are put into the directory in the order in which they stand, whatever they are written
from. -/
theorem reads_entries {α : Type} {f : α → Except TableError (List UInt8)} {g : α → Table}
    {as : List α} {d : Directory} {bytes : List UInt8}
    (hstep : ∀ a ∈ as, ∀ b, f a = .ok b → Reads entry b (g a))
    (hnodup : (as.map fun a => (g a).name).Nodup) (hnew : ∀ a ∈ as, (g a).name ∉ d)
    (h : encodeEach f as = .ok bytes) :
    Reads (entries as.length d) bytes (as.foldl (fun d a => d.put (g a)) d) := by
  induction as generalizing d bytes with
  | nil =>
    obtain rfl := Except.ok.inj h
    exact reads_pure _
  | cons a as ih =>
    obtain ⟨b, bs, hb, hbs, rfl⟩ := encodeEach_cons_eq_ok_iff.mp h
    rw [List.map_cons, List.nodup_cons] at hnodup
    have hrest : Reads (entries as.length (d.put (g a))) bs
        (as.foldl (fun d a => d.put (g a)) (d.put (g a))) := by
      refine ih (fun a' ha' => hstep a' (List.mem_cons_of_mem _ ha')) hnodup.2
        (fun a' ha' => ?_) hbs
      rw [Directory.put, Std.ExtTreeMap.mem_insert, Std.compare_eq_iff_eq]
      rintro (heq | hmem)
      · exact hnodup.1 (heq ▸ List.mem_map_of_mem (f := fun a => (g a).name) ha')
      · exact hnew a' (List.mem_cons_of_mem _ ha') hmem
    refine (hstep a List.mem_cons_self b hb).bind ?_
    have hfresh : d.contains (g a).name = false := by
      rw [← Bool.not_eq_true, Std.ExtTreeMap.contains_iff_mem]
      exact hnew a List.mem_cons_self
    simpa [hfresh] using hrest

end Reader

namespace Directory

variable {d : Directory}

/-- An image is read when its entries are, and nothing is left over. The rest is bookkeeping about
the number of entries. -/
theorem decode?_of_reads {count : UInt32} {bytes : List UInt8}
    (h : Reader.Reads (Reader.entries count.toNat ∅) bytes d) :
    decode? (encodeWord count ++ bytes) = .ok d := by
  have hexec := h [] 4
  rw [List.append_nil] at hexec
  rw [decode?, Reader.ofBytes, Reader.directory, Action.exec_bind_of_ok (Reader.reads_word _ _ _)]
  simp only [Reader.length_encodeWord, Nat.zero_add]
  rw [Action.exec_bind_of_ok hexec, Action.exec_get_bind]
  rfl

/-- **A sound directory is read back from its image**, with rows and index as they were. -/
theorem Sound.decode?_encode (h : d.Sound) {image : List UInt8} (he : d.encode? = .ok image) :
    decode? image = .ok d := by
  obtain ⟨count, bytes, hcount, hbytes, rfl⟩ := encode?_eq_ok_iff.mp he
  obtain ⟨-, hcount⟩ := Reader.wordOfLength_eq_ok_iff.mp hcount
  rw [← Std.ExtTreeMap.length_toList] at hcount
  have hmem : ∀ p ∈ d.toList, p.2.name = p.1 ∧ p.2.Sound := fun p hp =>
    h p.1 p.2 (Std.ExtTreeMap.mem_toList_iff_getElem?_eq_some.mp hp)
  have hnodup : (d.toList.map fun p => p.2.name).Nodup := by
    rw [List.map_congr_left fun p hp => (hmem p hp).1]
    exact nodup_map_fst_toList d
  have hentries := Reader.reads_entries (g := Prod.snd) (d := ∅)
    (fun p hp b hb => Reader.reads_entry (hmem p hp).1 (hmem p hp).2 hb) hnodup (by simp) hbytes
  rw [foldl_put_toList h, ← hcount] at hentries
  exact decode?_of_reads hentries

end Directory

/-! ### What is read -/

namespace Reader

theorem yields_ofExcept {α : Type} {r : Except Corruption α} {P : α → Prop}
    (h : ∀ a, r = .ok a → P a) : Yields (Action.ofExcept r) P := by
  intro s a s' hr
  exact h a (Prod.mk.inj hr).1

theorem yields_entry : Yields entry Table.Sound := by
  refine yields_bind fun name => yields_bind fun bytes =>
    (yields_ofExcept fun t => Table.sound_of_decode?).bind fun t ht => ?_
  dsimp only
  split
  · exact yields_throw _
  · exact yields_pure ht

theorem yields_entries {d : Directory} (h : d.Sound) (n : Nat) :
    Yields (entries n d) Directory.Sound := by
  induction n generalizing d with
  | zero => exact yields_pure h
  | succ n ih =>
    refine yields_entry.bind fun t ht => ?_
    dsimp only
    split
    · exact yields_throw _
    · exact ih (h.insert rfl ht)

theorem yields_directory : Yields directory Directory.Sound := by
  refine yields_bind fun count =>
    (yields_entries Directory.sound_empty count.toNat).bind fun d hd => yields_bind fun left => ?_
  dsimp only
  split
  · exact yields_throw _
  · exact yields_pure hd

end Reader

namespace Directory

/-- **Directories that are read are sound.** The bytes may come from anywhere: what does not make a
sound directory is refused. -/
theorem sound_of_decode? {bytes : List UInt8} {d : Directory} (h : decode? bytes = .ok d) :
    d.Sound :=
  Reader.yields_directory.of_exec h

end Directory

end FlatSql
