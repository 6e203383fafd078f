import CodeSearch.Proofs.Files.Making

/-!
Writing files on a disk.

A file that is written is there afterwards with the new content, and what may be done with it is what it
was (`lookup_of_write`). A file that is there is written exactly if it may be (`write_of_file`).
-/
set_option autoImplicit false

namespace CodeSearch.Files

namespace Disk

variable {d d' : Disk} {p : Path} {octets : List UInt8}

/-- A file that is put where no directory and no link was is what the path leads to. -/
theorem lookup_of_put {steps place : List String} {access : Access}
    (hinside : d.inside? p = some steps) (hfollow : follow d.root linkLimit [] steps = .ok place)
    (halike : AlikeBut place d.root (d.root.put place (.file octets access)))
    (hdirectory : ∀ entries access, d.root.at? place ≠ some (.directory entries access))
    (hlink : ∀ target, d.root.at? place ≠ some (.link target)) :
    (d.putAt place (.file octets access)).lookup p = .ok (.file octets access) := by
  have hput := at?_put d.root (.file octets access) place
  have hlink' : ∀ target, (d.root.put place (.file octets access)).at? place ≠ some (.link target) := by
    simp [hput]
  exact lookup_of_follow (d := d.putAt place (.file octets access)) hinside
    (follow_of_alike halike hdirectory hlink hlink' hfollow) hput

/-- A file that is there is put in its own place, and nothing else is different. -/
theorem alikeBut_put_file {root : Item} {place : List String} {old : List UInt8}
    {oldAccess access : Access} (hfile : root.at? place = some (.file old oldAccess)) :
    AlikeBut place root (root.put place (.file octets access)) := by
  by_cases hplace : place = []
  · subst hplace
    obtain rfl : root = .file old oldAccess := by
      rw [Item.at?] at hfile
      exact Option.some.inj hfile
    exact alikeBut_put_nil (bare_file _ _) (bare_file _ _)
  · have hlast := List.dropLast_concat_getLast hplace
    rw [← hlast] at hfile ⊢
    obtain ⟨entries, inner, habove⟩ := exists_directory_above hfile
    refine alikeBut_put (bare_file _ _) habove fun found hfound => ?_
    rw [hfile] at hfound
    rw [← Option.some.inj hfound]
    exact bare_file _ _

/-- A file is put in a directory where nothing is, and nothing else is different. -/
theorem alikeBut_put_free {root : Item} {place : List String} {access inner : Access}
    {entries : List (String × Item)} (hnone : root.at? place = none)
    (habove : root.at? place.dropLast = some (.directory entries inner)) :
    AlikeBut place root (root.put place (.file octets access)) := by
  have hplace : place ≠ [] := by
    rintro rfl
    rw [Item.at?] at hnone
    cases hnone
  rw [← List.dropLast_concat_getLast hplace] at hnone ⊢
  refine alikeBut_put (bare_file _ _) habove fun found hfound => ?_
  rw [hnone] at hfound
  cases hfound

/-- A file that is written is what the path leads to: what may be done with it is what it was, or
everything if there was no file. -/
theorem lookup_of_write (hwrite : d.write p octets = .ok d') :
    ∃ access, d'.lookup p = .ok (.file octets access) ∧
      ((∃ old, d.lookup p = .ok (.file old access)) ∨
        d.lookup p = .error .missing ∧ access = {}) := by
  unfold write at hwrite
  split at hwrite
  · cases hwrite
  · rename_i place hlocate
    obtain ⟨steps, hinside, hfollow⟩ := locate_eq_ok hlocate
    split at hwrite
    · rename_i old access hfile
      split at hwrite
      · rw [← Except.ok.inj hwrite]
        exact ⟨access, lookup_of_put hinside hfollow (alikeBut_put_file hfile) (by simp [hfile])
          (by simp [hfile]), .inl ⟨old, lookup_of_follow hinside hfollow hfile⟩⟩
      · cases hwrite
    · cases hwrite
    · rename_i hnone
      split at hwrite
      · rename_i hwritable
        obtain ⟨entries, inner, habove⟩ :
            ∃ entries inner, d.root.at? place.dropLast = some (.directory entries inner) := by
          unfold writable at hwritable
          split at hwritable
          · rename_i entries inner habove
            exact ⟨entries, inner, habove⟩
          · cases hwritable
        rw [← Except.ok.inj hwrite]
        refine ⟨{}, lookup_of_put hinside hfollow (alikeBut_put_free hnone habove) (by simp [hnone])
          (by simp [hnone]), .inr ⟨?_, rfl⟩⟩
        rw [lookup_eq, hlocate]
        simp only [hnone]
      · cases hwrite

/-- A file that is there is written exactly if it may be. -/
theorem write_of_file {old : List UInt8} {access : Access}
    (hlookup : d.lookup p = .ok (.file old access)) (octets : List UInt8) :
    (∃ written, d.write p octets = .ok written) ↔ access.write = true := by
  obtain ⟨steps, place, hinside, hfollow, hplace⟩ := lookup_eq_ok hlookup
  unfold write
  simp only [locate_of_follow hinside hfollow, hplace]
  split
  · rename_i hmay
    exact iff_of_true ⟨_, rfl⟩ hmay
  · rename_i hmay
    exact iff_of_false (by simp) hmay

end Disk

end CodeSearch.Files
