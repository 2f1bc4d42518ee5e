import OpenDirectory.Imports

/-! Whether an import is all or nothing. It writes one entry after another, each statement on its own, so that it
leaves everything as it was only where it stops before its first write. -/

namespace OpenDirectory.PolicyTables

variable {D : Type}

/-- The row says what the entry says. -/
structure Entry.Stands (entry : Entry D) (row : Gpo D) : Prop where
  description : row.description = entry.description
  enabled : row.enabled = entry.enabled
  settings : row.settings = entry.settings
  securityFilter : row.securityFilter = entry.securityFilter
  targeting : row.targeting = entry.targeting

/-- The link under the key is one of the document, with its order and flags. -/
def Restored (request : Import D) (entries : List (Entry D)) (tables : Tables D) (key : String × String) : Prop :=
  ∃ link, Dict.get tables.links key = some link ∧ ∃ entry ∈ entries,
    .link key.2 (some link.order) link.enforced link.enabled ∈ request.linksOf entry

variable [Runtime]

/-- The policy object an entry was brought to. Where the document names an object twice, the row says what one of
the entries says that name it. -/
structure Brought (request : Import D) (entries : List (Entry D)) (entry : Entry D) (tables : Tables D)
    (report : Report) (guid : String) (row : Gpo D) : Prop where
  there : (guid, row) ∈ tables.gpos
  listed : row.displayName ∈ report.created ∨ entry.name ∈ report.replaced
  named : lower row.displayName = lower entry.name ∨
    request.conflict = .rename ∧ ∃ i : Nat, row.displayName = entry.name ++ " (" ++ toString i ++ ")"
  stands : ∃ later ∈ entries, (later = entry ∨ lower later.name = lower row.displayName) ∧ later.Stands row
  links : ∀ target order enforced enabled, .link target order enforced enabled ∈ request.linksOf entry →
    target ≠ "" → target ∈ report.unlinked ∨ Restored request entries tables (guid, target)

/-- Each entry is created, replaced or skipped, and each of its links that the import is to restore is restored or
listed as not restored. -/
def Complete (request : Import D) (entries : List (Entry D)) (tables : Tables D) (report : Report) : Prop :=
  ∀ entry ∈ entries, entry.name ∈ report.skipped ∨ ∃ guid row, Brought request entries entry tables report guid row

/-- What is done for an entry is not undone by a later one. -/
structure Grows (request : Import D) (entries : List (Entry D)) (tables : Tables D) (report : Report)
    (tables' : Tables D) (report' : Report) : Prop where
  created : ∀ name ∈ report.created, name ∈ report'.created
  replaced : ∀ name ∈ report.replaced, name ∈ report'.replaced
  skipped : ∀ name ∈ report.skipped, name ∈ report'.skipped
  unlinked : ∀ target ∈ report.unlinked, target ∈ report'.unlinked
  restored : ∀ key, Restored request entries tables key → Restored request entries tables' key
  rows : ∀ guid row, (guid, row) ∈ tables.gpos → ∃ row', (guid, row') ∈ tables'.gpos ∧
    row'.displayName = row.displayName ∧
      (row' = row ∨ ∃ later ∈ entries, lower later.name = lower row.displayName ∧ later.Stands row')

variable {request : Import D} {entries : List (Entry D)} {tables tables' tables'' : Tables D}
  {report report' report'' : Report}

theorem Grows.refl (tables : Tables D) (report : Report) : Grows request entries tables report tables report where
  created := fun _ h => h
  replaced := fun _ h => h
  skipped := fun _ h => h
  unlinked := fun _ h => h
  restored := fun _ h => h
  rows := fun _ row h => ⟨row, h, rfl, .inl rfl⟩

theorem Grows.trans (h : Grows request entries tables report tables' report')
    (h' : Grows request entries tables' report' tables'' report'') :
    Grows request entries tables report tables'' report'' where
  created := fun name hname => h'.created name (h.created name hname)
  replaced := fun name hname => h'.replaced name (h.replaced name hname)
  skipped := fun name hname => h'.skipped name (h.skipped name hname)
  unlinked := fun target htarget => h'.unlinked target (h.unlinked target htarget)
  restored := fun key hkey => h'.restored key (h.restored key hkey)
  rows := by
    intro guid row hrow
    obtain ⟨row', hrow', hname, hsays⟩ := h.rows guid row hrow
    obtain ⟨row'', hrow'', hname', hsays'⟩ := h'.rows guid row' hrow'
    refine ⟨row'', hrow'', hname'.trans hname, ?_⟩
    rcases hsays' with rfl | ⟨later, hlater, hsame, hstands⟩
    · exact hsays
    · exact .inr ⟨later, hlater, hname ▸ hsame, hstands⟩

variable {guid name : String} {gpos : List (String × Gpo D)} {site : Site D}

theorem Brought.grows {entry : Entry D} {row : Gpo D}
    (h : Brought request entries entry tables report guid row)
    (hgrows : Grows request entries tables report tables' report') :
    ∃ row', Brought request entries entry tables' report' guid row' := by
  obtain ⟨row', hrow', hname, hsays⟩ := hgrows.rows guid row h.there
  refine ⟨row', hrow', ?_, ?_, ?_, ?_⟩
  · rw [hname]
    exact h.listed.imp (hgrows.created _) (hgrows.replaced _)
  · rw [hname]
    exact h.named
  · rcases hsays with rfl | ⟨later, hlater, hsame, hstands⟩
    · exact h.stands
    · exact ⟨later, hlater, .inr (hname ▸ hsame), hstands⟩
  · intro target order enforced enabled hlink htarget
    exact (h.links target order enforced enabled hlink htarget).imp (hgrows.unlinked _) (hgrows.restored _)

end OpenDirectory.PolicyTables
