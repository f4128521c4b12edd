import FlatSql.Proofs.Catalog.Loading

/-!
# Catalogs on stores that keep their bytes

What loading and saving do to a store that keeps its bytes, be it a file or memory. A load leaves
the bytes as they are, so that loading again gives the same tables; a save leaves either the image
of the tables or what was there before it.

## Main results

* `Catalog.load_keeping`, `Catalog.start_keeping` — loading leaves the bytes and gives their tables
* `Catalog.start_found` — starting finds the bytes and gives their tables
* `Catalog.save_keeping` — saving leaves the image or the old bytes
-/

namespace FlatSql

open ByteStore (Keeping contents)

namespace Catalog

variable {σ : Type} [ByteStore σ] {Found : σ → Prop} {c c' : Catalog σ}
  {outcome : Except Error Unit}

/-- **A load leaves the bytes and gives their tables.** It may also fail, and then it leaves the
bytes all the same. -/
theorem load_keeping (hk : Keeping Found) (hf : Found c.store) (h : load.exec c = (outcome, c')) :
    Found c'.store ∧ contents c'.store = contents c.store ∧
      (outcome = .ok () → Directory.stored? (contents c.store) = .ok c'.tables) := by
  have hend := loadEnds c
  rw [h] at hend
  dsimp only at hend
  have hsized : ∀ {n s}, ByteStore.size.exec c.store = (n, s) →
      Found s ∧ contents s = contents c.store := by
    intro n s hs
    have hleaves := hk.leaves_size c.store hf
    rwa [hs] at hleaves
  have hread : ∀ {n s size bytes s'}, ByteStore.size.exec c.store = (n, s) →
      (ByteStore.read 0 size).exec s = (bytes, s') → Found s' ∧ contents s' = contents c.store := by
    intro n s size bytes s' hs hr
    obtain ⟨hfound, hcontents⟩ := hsized hs
    have hleaves := hk.leaves_read 0 size s hfound
    rw [hr] at hleaves
    exact ⟨hleaves.1, hleaves.2.trans hcontents⟩
  cases hend with
  | unsized hs => exact ⟨(hsized hs).1, (hsized hs).2, nofun⟩
  | unread hs _ hr => exact ⟨(hread hs hr).1, (hread hs hr).2, nofun⟩
  | corrupt hs _ hr _ => exact ⟨(hread hs hr).1, (hread hs hr).2, nofun⟩
  | short hs hshort =>
    refine ⟨(hsized hs).1, (hsized hs).2, fun _ => ?_⟩
    rw [Directory.stored?, if_pos (hk.size_eq hf hs ▸ hshort)]
  | loaded hs hlong hr hsound himage =>
    refine ⟨(hread hs hr).1, (hread hs hr).2, fun _ => ?_⟩
    obtain rfl := hk.size_eq hf hs
    obtain ⟨hfound, hcontents⟩ := hsized hs
    rw [← hcontents] at hr hlong ⊢
    obtain rfl := hk.read_eq hfound hr
    rw [Directory.stored?, if_neg (Nat.not_lt.mpr hlong), hsound.decode?_of_hasImage himage]

/-- A start opens the store if it is closed; unless that fails, it is a load. The two ways are all
there is. -/
theorem start_cases (h : start.exec c = (outcome, c')) :
    (∃ e s, ByteStore.ensureOpen.exec c.store = (.error e, s) ∧ outcome = .error (.store e) ∧
      c' = { c with store := s }) ∨
    ∃ s, (ByteStore.isOpen c.store = true ∧ s = c.store ∨
      ByteStore.isOpen c.store = false ∧ ByteStore.ensureOpen.exec c.store = (.ok (), s)) ∧
      load.exec { c with store := s } = (outcome, c') := by
  rw [start, Action.exec_get_bind] at h
  cases ho : ByteStore.isOpen c.store with
  | true =>
    rw [ho] at h
    exact .inr ⟨c.store, .inl ⟨rfl, rfl⟩, h⟩
  | false =>
    rw [ho] at h
    change (onStore ByteStore.ensureOpen >>= fun _ => load).exec c = _ at h
    rcases hopened : ByteStore.ensureOpen.exec c.store with ⟨e | ⟨⟩, s⟩
    · rw [exec_onStore_bind_of_error hopened] at h
      obtain ⟨rfl, rfl⟩ := Prod.mk.inj h
      exact .inl ⟨e, s, rfl, rfl, rfl⟩
    · rw [exec_onStore_bind_of_ok hopened] at h
      exact .inr ⟨s, .inr ⟨rfl, rfl⟩, h⟩

/-- Starting again leaves the bytes and gives their tables. The store has been found before, so
opening makes no new file. -/
theorem start_keeping (hk : Keeping Found) (hf : Found c.store)
    (h : start.exec c = (outcome, c')) : Found c'.store ∧ contents c'.store = contents c.store ∧
      (outcome = .ok () → Directory.stored? (contents c.store) = .ok c'.tables) := by
  have hleaves := hk.leaves_ensureOpen c.store hf
  rcases start_cases h with ⟨e, s, hopened, rfl, rfl⟩ | ⟨s, hopened, hload⟩
  · rw [hopened] at hleaves
    exact ⟨hleaves.1, hleaves.2, nofun⟩
  · obtain ⟨hfound, hcontents⟩ : Found s ∧ contents s = contents c.store := by
      rcases hopened with ⟨-, rfl⟩ | ⟨-, hopened⟩
      · exact ⟨hf, rfl⟩
      · rwa [hopened] at hleaves
    rw [← hcontents]
    exact load_keeping hk hfound hload

/-- Starting for the first time finds the bytes and gives their tables. Only a closed store may
still have to look for them. -/
theorem start_found (hk : Keeping Found) (ho : ByteStore.isOpen c.store = true → Found c.store)
    (h : start.exec c = (.ok (), c')) :
    Found c'.store ∧ Directory.stored? (contents c'.store) = .ok c'.tables := by
  rcases start_cases h with ⟨e, s, -, hfailed, -⟩ | ⟨s, hopened, hload⟩
  · cases hfailed
  · have hfound : Found s := by
      rcases hopened with ⟨hopen, rfl⟩ | ⟨hclosed, hopened⟩
      · exact ho hopen
      · exact hk.found_of_open hclosed hopened
    obtain ⟨hfound, hcontents, hstored⟩ := load_keeping hk hfound hload
    exact ⟨hfound, hcontents ▸ hstored rfl⟩

/-- **A save leaves the image of the tables or the old bytes.** Which of the two it is depends on
the store; there is nothing between. -/
theorem save_keeping (hk : Keeping Found) (hf : Found c.store) (hs : c.tables.Sound) :
    Found (save.exec c).2.store ∧ (save.exec c).2.tables = c.tables ∧
      (contents (save.exec c).2.store = contents c.store ∨
        Directory.stored? (contents (save.exec c).2.store) = .ok c.tables) := by
  cases he : c.tables.encode? with
  | error e =>
    have hsave : save.exec c = (.error (.table e), c) := by
      rw [save, Action.exec_get_bind, he]
      exact Action.exec_ofExcept_error_bind ..
    rw [hsave]
    exact ⟨hf, rfl, .inl rfl⟩
  | ok image =>
    have hne : image ≠ [] := by
      rintro rfl
      cases Directory.headerLength_le_length he
    obtain ⟨hfound, hcontents⟩ := hk.replaced hf hne
    rw [exec_save_of_image he, onStore, Action.exec_within, Action.exec_mapError]
    refine ⟨hfound, rfl, hcontents.imp_right fun himage => ?_⟩
    dsimp only
    rw [himage, hs.stored?_encode he]

end Catalog

end FlatSql
