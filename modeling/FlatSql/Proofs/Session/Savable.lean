import FlatSql.Proofs.Session.Traceless
import Mathlib.Data.List.Infix

/-!
# Texts cannot make tables unsavable

Integers have more room in memory than in an image, and a single one that is too wide would make
every later save fail, whichever table it is in. No text brings one into a table: a numeral stands
for an integer of 32 bits or for zero, and no statement computes. So lengths are all that can keep
tables from being saved, and while these fit, every save succeeds and memory is never ahead of the
store.

## Main results

* `Directory.Sound.int_range` — integers in sound tables can be stored
* `Engine.noSaveFails_of_fits` — while lengths fit, no save fails
* `Engine.savable` — texts cannot make tables unsavable
-/

namespace FlatSql

/-- Integers in sound tables can be stored. Literals out of range stand for zero, and no statement
computes a new integer. -/
theorem Directory.Sound.int_range {d : Directory} (h : d.Sound) {name : String} {t : Table}
    (ht : d[name]? = some t) {r : Row} (hr : r ∈ t.rows) {f : Field} (hf : f ∈ r.fields) {n : Int}
    (hn : f.value = .int n) : leastStored ≤ n ∧ n ≤ greatestStored := by
  have hstorable := (h name t ht).2.storable r hr f hf
  rw [hn] at hstorable
  exact hstorable

/-- A text fails as a save does only if the tables that it leaves do not fit. An open store in
memory refuses nothing else. -/
theorem Query.Ends.failsOnly {c c' : Catalog MemoryStore} {text : String}
    {reply : Except Error String} (h : Query.Ends c text reply c') (hc : c.tables.Sound)
    (ho : c.store.isOpen = true) (hl : c'.tables.LengthsFit) : reply.FailsOnly Error.OfCheck := by
  cases h with
  | unread hp => exact .error rfl
  | refused hp hx => exact .error (Statement.failsOnly_effect hc _ _ hx)
  | read | saved => exact .ok _
  | unsaved hp hx hs =>
    obtain ⟨c₁, hok⟩ := Statement.exists_saved_of_effect hc ho hp hx hl
    cases hs.symm.trans hok

namespace Engine

variable {e : Engine MemoryStore}

/-- **While lengths fit, no save fails.** The lengths are asked for after each of the texts, as each
of them may save. -/
theorem noSaveFails_of_fits (h : e.catalog.tables.Sound) (ho : e.catalog.store.isOpen = true)
    {texts : List String}
    (hl : ∀ past, past <+: texts → (after (past.map .query) e).catalog.tables.LengthsFit) :
    NoSaveFails (texts.map .query) e := by
  induction texts generalizing e with
  | nil => exact nofun
  | cons text texts ih =>
    have hend := Query.ends e h text
    have hfirst : ((execute text).exec e).2.catalog.tables.LengthsFit := by
      rw [← Event.leave_query]
      exact hl [text] ⟨texts, rfl⟩
    refine noSaveFails_cons.mpr ⟨?_, ih (sound_leave h (.query text)) ?_ fun past hpast => ?_⟩
    · rw [Event.reply_query]
      exact (hend.failsOnly h ho hfirst).map some
    · rw [Event.leave_query]
      exact hend.isOpen ho
    · exact hl (text :: past) (List.cons_prefix_cons.mpr ⟨rfl, hpast⟩)

/-- **Texts cannot make tables unsavable.** Let an engine start on any contents of a store in memory
that it accepts and run any texts. As long as the lengths of its tables fit, every integer in a
table is one of 32 bits, the tables can be saved, no text has failed because of a save, and the
store holds the tables. -/
theorem savable {store : MemoryStore} (h : (ofStore store).1 = .ok e) {texts : List String}
    (hl : ∀ past, past <+: texts → (after (past.map .query) e).catalog.tables.LengthsFit) :
    (∀ (name : String) (t : Table),
      (after (texts.map .query) e).catalog.tables[name]? = some t →
        ∀ r ∈ t.rows, ∀ f ∈ r.fields, ∀ n, f.value = .int n →
          leastStored ≤ n ∧ n ≤ greatestStored) ∧
    (Catalog.save.exec (after (texts.map .query) e).catalog).1 = .ok () ∧
    NoSaveFails (texts.map .query) e ∧ Synced (after (texts.map .query) e) := by
  obtain ⟨hsound, hsynced, hopen⟩ := ofStore_eq_ok h
  have hafter := sound_after hsound (texts.map .query)
  have hn := noSaveFails_of_fits hsound hopen hl
  obtain ⟨c, hc⟩ := Catalog.exists_saved hafter (hl texts (List.prefix_refl texts))
    (isOpen_after_queries hsound hopen texts)
  refine ⟨fun name t ht r hr f hf n => hafter.int_range ht hr hf, ?_, hn,
    hsynced.after hsound hn⟩
  rw [Catalog.exec_save, hc]
  rfl

/-- Numerals at the edge of 32 bits and beyond it. One of them is too long for any machine integer.
-/
def wideTexts : List String :=
  ["CREATE TABLE t (n INT, x FLOAT)", "INSERT INTO t VALUES 2147483647, 4294967296.5",
    "INSERT INTO t VALUES 2147483648, 99999999999999999999", "UPDATE t SET n = 9999999999",
    "SELECT * FROM t"]

/-- Wider numerals stand for zero, and all saves succeed. The engine is that of an empty store. -/
theorem savable_wide :
    (ofStore (MemoryStore.ofBytes [])).1 = .ok fresh ∧
    (∀ past, past <+: wideTexts →
      (after (past.map .query) fresh).catalog.tables.LengthsFit) ∧
    (Catalog.save.exec (after (wideTexts.map .query) fresh).catalog).1 = .ok () ∧
    NoSaveFails (wideTexts.map .query) fresh ∧ Synced (after (wideTexts.map .query) fresh) := by
  have hl : ∀ past ∈ wideTexts.inits,
      (after (past.map .query) fresh).catalog.tables.LengthsFit := by
    decide +kernel
  have hfits : ∀ past, past <+: wideTexts →
      (after (past.map .query) fresh).catalog.tables.LengthsFit := fun past hpast =>
    hl past ((List.mem_inits past wideTexts).mpr hpast)
  exact ⟨ofStore_empty, hfits, (savable ofStore_empty hfits).2⟩

end Engine

end FlatSql
