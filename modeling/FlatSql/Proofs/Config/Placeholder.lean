import FlatSql.Config.Placeholder
import FlatSql.Proofs.Text.Basic

/-!
# What comes from the program's directory

The directory takes the place of its placeholder before the parts of the date take theirs. A
directory is therefore inserted as it is exactly if no placeholder for a part of a date occurs in
its name; one that does is replaced as if the configuration had asked for it.

No written part of a date holds an underscore. What has been put in never takes part in a
placeholder again, and underscores tell whether anything has been replaced at all.

## Main definitions

* `replaceKinds` — one kind of placeholders after another
* `Marked` — a placeholder told by underscores that what stands for it has not
* `datePlaceholders` — the placeholders for the parts of a date

## Main results

* `replaceKinds_eq_self_iff` — a text stays as it is exactly if no placeholder occurs in it
* `expandPlaceholders_root_iff` — which directories are inserted as they are
-/

namespace FlatSql

/-! ### One kind after another -/

/-- The text with every kind of placeholders replaced, one after another. What a replacement puts in
is searched again for the placeholders that come after it. -/
def replaceKinds (kinds : List (String × String)) (s : String) : String :=
  kinds.foldl (fun s (pattern, replacement) => replaceAll pattern replacement s) s

/-- A placeholder is told by underscores, and what stands for it has none. So every replacement
takes underscores away and puts none in. -/
def Marked (kind : String × String) : Prop := '_' ∈ kind.1.toList ∧ '_' ∉ kind.2.toList

theorem toList_replaceAll (pattern replacement s : String) :
    (replaceAll pattern replacement s).toList =
      replaceFrom pattern.toList replacement.toList 0 s.toList :=
  String.toList_ofList

variable {kinds : List (String × String)}

theorem count_replaceKinds_le (h : ∀ kind ∈ kinds, Marked kind) (s : String) :
    (replaceKinds kinds s).toList.count '_' ≤ s.toList.count '_' := by
  induction kinds generalizing s with
  | nil => exact Nat.le_refl _
  | cons kind kinds ih =>
    obtain ⟨hpattern, hreplacement⟩ := h kind (by simp)
    have hfirst := count_replaceFrom_le hpattern hreplacement s.toList
    rw [← toList_replaceAll] at hfirst
    exact (ih (fun k hk => h k (by simp [hk])) _).trans hfirst

/-- **A text stays as it is exactly if no placeholder occurs in it.** A replacement that does occur
lowers the number of underscores for good, since later ones put none back. -/
theorem replaceKinds_eq_self_iff (h : ∀ kind ∈ kinds, Marked kind) (s : String) :
    replaceKinds kinds s = s ↔ ∀ kind ∈ kinds, ¬ kind.1.toList <:+: s.toList := by
  induction kinds generalizing s with
  | nil => simp [replaceKinds]
  | cons kind kinds ih =>
    obtain ⟨hpattern, hreplacement⟩ := h kind (by simp)
    have hkinds : ∀ k ∈ kinds, Marked k := fun k hk => h k (by simp [hk])
    change replaceKinds kinds (replaceAll kind.1 kind.2 s) = s ↔ _
    by_cases hoccurs : kind.1.toList <:+: s.toList
    · -- what is lost here does not come back with the kinds that follow
      have hlost := count_replaceFrom_lt hpattern hreplacement hoccurs
      rw [← toList_replaceAll] at hlost
      have hrest := count_replaceKinds_le hkinds (replaceAll kind.1 kind.2 s)
      constructor
      · intro heq
        rw [heq] at hrest
        omega
      · intro hnone
        exact absurd hoccurs (hnone kind (by simp))
    · have hsame : replaceAll kind.1 kind.2 s = s := by
        rw [← String.toList_inj, toList_replaceAll, replaceFrom_of_not_infix hoccurs]
      rw [hsame, ih hkinds s]
      simp [hoccurs]

/-! ### Parts of a date -/

namespace Date

theorem underscore_not_mem_padded (width n : Nat) : '_' ∉ (padded width n).toList := by
  intro h
  rw [padded, String.toList_ofList, List.mem_append] at h
  rcases h with hzero | hdigit
  · cases List.eq_of_mem_replicate hzero
  · cases Nat.isDigit_of_mem_toDigits (b := 10) (by decide) (by decide) hdigit

theorem underscore_not_mem_yearText (d : Date) : '_' ∉ d.yearText.toList := by
  have hdigits := underscore_not_mem_padded 4 d.year.natAbs
  rw [yearText]
  split
  · simpa using hdigits
  split
  · simpa using hdigits
  · exact hdigits

end Date

/-- The placeholders for the parts of a date, with what stands for each. The order is the one in
which they are replaced. -/
def datePlaceholders (date : Date) : List (String × String) :=
  [("__YYYY__", date.yearText), ("__MM__", date.monthText), ("__DD__", date.dayText)]

theorem marked_datePlaceholders (date : Date) : ∀ kind ∈ datePlaceholders date, Marked kind := by
  intro kind hkind
  simp only [datePlaceholders, List.mem_cons, List.not_mem_nil, or_false] at hkind
  rcases hkind with rfl | rfl | rfl
  · exact ⟨by simp, date.underscore_not_mem_yearText⟩
  · exact ⟨by simp, Date.underscore_not_mem_padded 2 date.month⟩
  · exact ⟨by simp, Date.underscore_not_mem_padded 2 date.day⟩

/-! ### The directory -/

section Root

variable {p q : String}

/-- The directory is put in first. What stands in it is then read for the parts of a date as
everything else. -/
theorem expandPlaceholders_eq (input root : String) (date : Date) :
    expandPlaceholders input root date =
      replaceKinds (datePlaceholders date) (replaceAll "__ROOT__" root input) := by
  simp only [expandPlaceholders, placeholders, replaceKinds, datePlaceholders, List.foldl_cons]

/-- Between texts without underscores the directory takes the place of its placeholder. It is not
searched for a further one. -/
theorem replaceAll_root (hp : '_' ∉ p.toList) (hq : '_' ∉ q.toList) (root : String) :
    replaceAll "__ROOT__" root (p ++ "__ROOT__" ++ q) = p ++ root ++ q := by
  have hpattern : "__ROOT__".toList = '_' :: ['_', 'R', 'O', 'O', 'T', '_', '_'] := by simp
  have hpassing {s : List Char} (hs : '_' ∉ s) (t : List Char) :
      replaceFrom "__ROOT__".toList root.toList 0 (s ++ t) =
        s ++ replaceFrom "__ROOT__".toList root.toList 0 t := by
    rw [hpattern, replaceFrom_passing hs]
  have hrest : replaceFrom "__ROOT__".toList root.toList 0 q.toList = q.toList := by
    simpa using hpassing hq []
  rw [← String.toList_inj, toList_replaceAll]
  simp only [String.toList_append, List.append_assoc]
  rw [hpassing hp, replaceFrom_append (by simp), hrest]

/-- A placeholder that starts and ends with an underscore occurs only within the directory. It
cannot straddle a border, as one of its ends would then lie in a text without underscores. -/
theorem infix_around_root_iff (hp : '_' ∉ p.toList) (hq : '_' ∉ q.toList) (root : String)
    {pattern : String} {middle : List Char} (h : pattern.toList = '_' :: (middle ++ ['_'])) :
    pattern.toList <:+: (p ++ root ++ q).toList ↔ pattern.toList <:+: root.toList := by
  rw [h, String.toList_append, String.toList_append, List.append_assoc, infix_append_left_iff hp,
    ← List.cons_append, infix_append_right_iff hq]

/-- **A directory is inserted as it is exactly if no part of a date is asked for in its name.** The
texts on both sides are any without underscores, such as the rest of a path. -/
theorem expandPlaceholders_root_iff (hp : '_' ∉ p.toList) (hq : '_' ∉ q.toList) (root : String)
    (date : Date) :
    expandPlaceholders (p ++ "__ROOT__" ++ q) root date = p ++ root ++ q ↔
      ∀ pattern ∈ ["__YYYY__", "__MM__", "__DD__"], ¬ pattern.toList <:+: root.toList := by
  have hyear : "__YYYY__".toList = '_' :: (['_', 'Y', 'Y', 'Y', 'Y', '_'] ++ ['_']) := by simp
  have hmonth : "__MM__".toList = '_' :: (['_', 'M', 'M', '_'] ++ ['_']) := by simp
  have hday : "__DD__".toList = '_' :: (['_', 'D', 'D', '_'] ++ ['_']) := by simp
  rw [expandPlaceholders_eq, replaceAll_root hp hq,
    replaceKinds_eq_self_iff (marked_datePlaceholders date)]
  simp only [datePlaceholders, List.forall_mem_cons, infix_around_root_iff hp hq root hyear,
    infix_around_root_iff hp hq root hmonth, infix_around_root_iff hp hq root hday]
  simp

/-- The directory's own placeholder and half of a month's are no part of a date. Such a name is
inserted as it is. -/
theorem expandPlaceholders_root_iff_halves :
    '_' ∉ "data/".toList ∧ '_' ∉ "/x.bin".toList ∧
      expandPlaceholders ("data/" ++ "__ROOT__" ++ "/x.bin") "__ROOT____MM_" ⟨2024, 3, 7⟩ =
        "data/" ++ "__ROOT____MM_" ++ "/x.bin" := by
  have hp : '_' ∉ "data/".toList := by decide
  have hq : '_' ∉ "/x.bin".toList := by decide
  exact ⟨hp, hq, (expandPlaceholders_root_iff hp hq _ _).mpr (by decide +kernel)⟩

/-- A directory that is called like the placeholder of a year is not inserted as it is. The year
stands in its place. -/
theorem not_expandPlaceholders_root_year :
    '_' ∉ "".toList ∧ '_' ∉ "/x".toList ∧
      expandPlaceholders ("" ++ "__ROOT__" ++ "/x") "/srv/__YYYY__" ⟨2024, 10, 20⟩ ≠
        "" ++ "/srv/__YYYY__" ++ "/x" := by
  decide +kernel

end Root

end FlatSql
