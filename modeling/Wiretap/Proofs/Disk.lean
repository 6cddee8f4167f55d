import Wiretap.Files.Disk

/-! Files apart from each other. Text that is added to a file changes neither where paths lead nor
what any other file holds. -/

namespace Wiretap

namespace Disk

variable {d : Disk} {place other : Place} {bytes : List UInt8}

theorem lookup_set_self (d : Disk) (e : Entry) (hplace : place ≠ []) :
    Disk.entry? (d.set place e) place = some e := by
  have hnone : (d.entries.filter (·.1 ≠ place)).find? (·.1 = place) = none := by
    simp [List.find?_eq_none]
  unfold entry? set
  dsimp only
  rw [List.find?_append, hnone]
  simp [hplace]

theorem lookup_set_ne (d : Disk) (e : Entry) (hne : other ≠ place) :
    Disk.entry? (d.set place e) other = d.entry? other := by
  have hkept : (d.entries.filter (·.1 ≠ place)).find? (·.1 = other) =
      d.entries.find? (·.1 = other) := by
    rw [List.find?_filter]
    congr 1
    funext entry
    by_cases h : entry.1 = other
    · simp [h, hne]
    · simp [h]
  unfold entry? set
  dsimp only
  rw [List.find?_append, hkept]
  simp [Ne.symm hne]

/-- Only the file that text is added to changes. -/
theorem lookup_append (hfile : d.entry? place = some (.file bytes)) (text : String) :
    Disk.entry? (d.append place text) other =
      if other = place then some (.file (bytes ++ Text.encode text)) else d.entry? other := by
  have hplace : place ≠ [] := by
    rintro rfl
    exact nomatch hfile
  unfold append
  rw [hfile]
  dsimp only
  by_cases h : other = place
  · rw [h, if_pos rfl, lookup_set_self d _ hplace]
  · rw [if_neg h, lookup_set_ne d _ h]

/-- What text was added to is a file, whether or not it was one before. -/
theorem lookup_append_self (d : Disk) (text : String) (hplace : place ≠ []) :
    ∃ bytes, Disk.entry? (d.append place text) place = some (.file bytes) := by
  unfold append
  split
  · exact ⟨_, lookup_set_self d _ hplace⟩
  · exact ⟨_, lookup_set_self d _ hplace⟩

theorem walk_append (hfile : d.entry? place = some (.file bytes)) (text : String) (start : Place)
    (names : List String) : (d.append place text).walk start names = d.walk start names := by
  induction names generalizing start with
  | nil => rfl
  | cons name names ih =>
    unfold walk
    rw [lookup_append hfile]
    by_cases h : start = place
    · rw [if_pos h, h, hfile]
    · rw [if_neg h]
      simp only [ih]

theorem locate_append (hfile : d.entry? place = some (.file bytes)) (text path : String) :
    (d.append place text).locate path = d.locate path := by
  have horigin : (d.append place text).origin path = d.origin path := by
    unfold append
    rw [hfile]
    rfl
  unfold locate
  rw [horigin, walk_append hfile]

theorem read_append_empty (hfile : d.entry? place = some (.file bytes)) (path : String) :
    (d.append place "").read path = d.read path := by
  have hentry : ∀ other, Disk.entry? (d.append place "") other = d.entry? other := by
    intro other
    rw [lookup_append hfile]
    by_cases h : other = place
    · rw [if_pos h, h, hfile]
      simp [Text.encode]
    · rw [if_neg h]
  unfold read
  simp only [locate_append hfile, hentry]

/-- Text that is added to one file does not show in another. -/
theorem read_append (hfile : d.entry? place = some (.file bytes)) (text : String) {path : String}
    (hpath : d.locate path ≠ .ok place) : (d.append place text).read path = d.read path := by
  unfold read
  rw [locate_append hfile]
  cases hlocate : d.locate path with
  | error e => rfl
  | ok found =>
    have hne : found ≠ place := fun h => hpath (h ▸ hlocate)
    have hentry : Disk.entry? (d.append place text) found = d.entry? found := by
      rw [lookup_append hfile, if_neg hne]
    simp only [bind, Except.bind, hentry]

end Disk

end Wiretap
