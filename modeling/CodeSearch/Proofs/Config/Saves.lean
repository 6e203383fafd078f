import CodeSearch.Config.File
import CodeSearch.Proofs.Config.SameData
import CodeSearch.Proofs.Files.Writing
import CodeSearch.Proofs.Text.Encoding

/-!
What the configuration file holds after it has been saved to many times.

A save reads the file, replaces one section and writes the file anew. So the law of one save is that
of a map with one entry set, and the law of many is that the last save of a section that went through
counts (`load_after_saves`). It rests on the reading of what was written: the octets are those that
were written, whatever links there are, and the text of the octets is the one that was written. That
the table is the one that was written is left to the format, and is asked for the tables that are
written (`Undone`).
-/
set_option autoImplicit false

namespace CodeSearch

namespace Config

open CodeSearch.Files (Disk)
open CodeSearch.Service
open CodeSearch.Value (Alike)

/-! ## Reading the file -/

/-- What is the same as a table is a table. -/
theorem exists_table_of_alike {v : Option Value} {entries : List (String × Value)}
    (h : Alike (some (.table entries)) v) : ∃ entries', v = some (.table entries') := by
  have hsurface := h []
  rcases v with - | v
  · cases hsurface
  · cases v with
    | table entries' => exact ⟨entries', rfl⟩
    | _ => cases hsurface

theorem loadSection_of_table {table entries : List (String × Value)} {name : String}
    (h : Value.find? name table = some (.table entries)) : loadSection table name = entries := by
  rw [loadSection, h]

/-- Tables that have the same under a key have the same section. -/
theorem loadSection_alike {table table' : List (String × Value)} {name : String}
    (h : Alike (Value.find? name table) (Value.find? name table')) :
    Alike (some (.table (loadSection table name))) (some (.table (loadSection table' name))) := by
  by_cases htable : ∃ entries, Value.find? name table = some (.table entries)
  · obtain ⟨entries, hentries⟩ := htable
    obtain ⟨entries', hentries'⟩ := exists_table_of_alike (hentries ▸ h)
    rw [loadSection_of_table hentries, loadSection_of_table hentries', ← hentries, ← hentries']
    exact h
  · have hnone : ∀ table : List (String × Value),
        (∀ entries, Value.find? name table ≠ some (.table entries)) → loadSection table name = [] := by
      intro table hno
      unfold loadSection
      split
      · rename_i entries hentries
        exact absurd hentries (hno entries)
      · rfl
    have htable' : ∀ entries, Value.find? name table' ≠ some (.table entries) := by
      intro entries hentries
      exact htable (exists_table_of_alike (hentries ▸ h.symm))
    rw [hnone table fun entries hentries => htable ⟨entries, hentries⟩, hnone table' htable']
    exact .refl _

section

variable (format : Format) (d : Disk) (base : Path) (table : List (String × Value))

/-- The file is not there and the table is empty, or the file is read and spells the table. -/
def Spells : Prop :=
  d.has (filePath base) = .ok false ∧ table = [] ∨
    ∃ octets text, d.read (filePath base) = .ok octets ∧ Text.decode octets = .ok text ∧
      format.read (String.ofList (Text.unifyBreaks text)) = .ok table

/-- The disk with the directory of the file made, as far as it can be. -/
def settled : Disk := (d.ensureDirectory (filePath base).parent).disk

/-- What the file spells, and would spell if its directory were made: a file that is not there does not
come to light with that. At the end of a path that leads down alone, by names that a system takes, the
one implies the other (`Spells.holds_of_straight`). -/
def Holds : Prop := Spells format d base table ∧ Spells format (settled d base) base table

/-- The format reads a table back from the text of the file that it was written to. -/
def Undone : Prop :=
  ∃ found, format.read (String.ofList (Text.unifyBreaks (format.write table).toList)) = .ok found ∧
    Alike (some (.table found)) (some (.table table))

end

section Load

variable {format : Format} {d d' : Disk} {base : Path} {table table' : List (String × Value)}

/-- A file that is read is there. -/
theorem has_of_read {p : Path} {octets : List UInt8} (hread : d.read p = .ok octets) :
    d.has p = .ok true := by
  unfold Disk.read at hread
  unfold Disk.has
  split at hread
  · rename_i hlookup
    rw [hlookup]
  · cases hread
  · cases hread

/-- The file spells a table exactly if it is loaded without a warning. -/
theorem load_eq_iff : load format d base = .ok (table, []) ↔ Spells format d base table := by
  constructor
  · intro hload
    unfold load at hload
    dsimp only at hload
    split at hload
    · cases hload
    · rename_i hhas
      exact .inl ⟨hhas, (congrArg Prod.fst (Except.ok.inj hload)).symm⟩
    · split at hload
      · cases congrArg Prod.snd (Except.ok.inj hload)
      · rename_i octets hread
        split at hload
        · cases hload
        · rename_i text hdecode
          split at hload
          · rename_i found hfound
            obtain rfl : found = table := congrArg Prod.fst (Except.ok.inj hload)
            exact .inr ⟨octets, text, hread, hdecode, hfound⟩
          · cases congrArg Prod.snd (Except.ok.inj hload)
          · cases hload
  · rintro (⟨hhas, rfl⟩ | ⟨octets, text, hread, hdecode, hfound⟩)
    · simp only [load, hhas]
    · simp only [load, has_of_read hread, hread, hdecode, hfound]

theorem Holds.load (h : Holds format d base table) : load format d base = .ok (table, []) :=
  load_eq_iff.mpr h.1

/-- A file spells one table. -/
theorem Spells.eq (h : Spells format d base table) (h' : Spells format d base table') :
    table = table' := by
  have hsame := (load_eq_iff.mpr h).symm.trans (load_eq_iff.mpr h')
  exact congrArg Prod.fst (Except.ok.inj hsame)

/-- A file that spells a table can be read. -/
theorem Spells.readable (h : Spells format d base table) {octets : List UInt8} {access : Files.Access}
    (hlookup : d.lookup (filePath base) = .ok (.file octets access)) : access.read = true := by
  rcases h with ⟨hhas, -⟩ | ⟨found, text, hread, -⟩
  · simp [Disk.has, hlookup] at hhas
  · simp only [Disk.read, hlookup] at hread
    split at hread
    · assumption
    · cases hread

end Load

/-! ## Writing the file -/

theorem steps_filePath (base : Path) : (filePath base).steps = base.steps ++ ["config.toml"] := by
  have hname : Path.stepsOf "config.toml".toList = ["config.toml"] := by decide
  rw [filePath, Path.below, hname]

theorem steps_filePath_ne_nil (base : Path) : (filePath base).steps ≠ [] := by
  rw [steps_filePath]
  simp

section Store

variable {format : Format} {d : Disk} {base : Path} {table : List (String × Value)}

/-- A disk on which the file is there is settled. -/
theorem settled_of_lookup {item : Files.Item} (h : d.lookup (filePath base) = .ok item) :
    settled d base = d := by
  rw [settled, Disk.ensureDirectory_of_lookup (steps_filePath_ne_nil base) h]

/-- What a file that is there spells it holds. -/
theorem Spells.holds {item : Files.Item} (h : Spells format d base table)
    (hthere : d.lookup (filePath base) = .ok item) : Holds format d base table := by
  refine ⟨h, ?_⟩
  rw [settled_of_lookup hthere]
  exact h

/-- What is spelled at the end of a straight path is held there. -/
theorem Spells.holds_of_straight (h : Spells format d base table)
    (hstraight : Disk.Straight (filePath base)) : Holds format d base table := by
  rcases h with ⟨hhas, rfl⟩ | ⟨octets, text, hread, hfound⟩
  · refine ⟨.inl ⟨hhas, rfl⟩, .inl ⟨?_, rfl⟩⟩
    exact Disk.has_ensureDirectory hstraight (steps_filePath_ne_nil base) hhas
  · unfold Disk.read at hread
    split at hread
    · rename_i hlookup
      exact Spells.holds (.inr ⟨octets, text, by rw [Disk.read, hlookup]; exact hread, hfound⟩) hlookup
    · cases hread
    · cases hread

theorem settled_settled (d : Disk) (base : Path) : settled (settled d base) base = settled d base :=
  Disk.disk_ensureDirectory_twice d _

/-- What cannot be stored leaves the disk as it is with the directory made. -/
theorem disk_store_of_obstacle (h : (store format d base table).obstacle?.isSome = true) :
    (store format d base table).disk = settled d base := by
  unfold store at h ⊢
  dsimp only at h ⊢
  split
  · rfl
  · rename_i hprepared
    rw [if_neg hprepared] at h
    split
    · rfl
    · rename_i written hwritten
      rw [hwritten] at h
      cases h

/-- What is stored is in the file, and what may be done with the file is what it was. -/
theorem lookup_of_store (h : (store format d base table).obstacle? = none) :
    ∃ access, (store format d base table).disk.lookup (filePath base) =
        .ok (.file (Text.encode (format.write table).toList) access) ∧
      ((∃ old, (settled d base).lookup (filePath base) = .ok (.file old access)) ∨
        (settled d base).lookup (filePath base) = .error .missing ∧ access = {}) := by
  unfold store at h ⊢
  dsimp only at h ⊢
  split
  · rename_i hprepared
    rw [if_pos hprepared] at h
    rw [h] at hprepared
    cases hprepared
  · rename_i hprepared
    rw [if_neg hprepared] at h
    split
    · rename_i obstacle hfailed
      rw [hfailed] at h
      cases h
    · rename_i written hwritten
      exact Disk.lookup_of_write hwritten

/-- A table that is stored where the file was held is what the file holds afterwards, as far as the
format reads it back. -/
theorem holds_of_store {before found : List (String × Value)} (hbefore : Holds format d base before)
    (hfound : format.read (String.ofList (Text.unifyBreaks (format.write table).toList)) = .ok found)
    (h : (store format d base table).obstacle? = none) :
    Holds format (store format d base table).disk base found := by
  obtain ⟨access, hlookup, hold⟩ := lookup_of_store h
  have hreadable : access.read = true := by
    rcases hold with ⟨old, hold⟩ | ⟨-, rfl⟩
    · exact hbefore.2.readable hold
    · rfl
  have hread : (store format d base table).disk.read (filePath base) =
      .ok (Text.encode (format.write table).toList) := by
    simp only [Disk.read, hlookup, hreadable, if_true]
  exact Spells.holds (.inr ⟨_, _, hread, Text.decode_encode _, hfound⟩) hlookup

end Store

/-! ## Saves -/

/-- A call that saves something. -/
inductive Saving where
  | section (name : String) (values : List (String × Value))
  | choice (capability : Capability) (provider model apiKey endpoint : String)

namespace Saving

/-- The section that is saved. -/
def name : Saving → String
  | .section name _ => name
  | .choice capability _ _ _ _ => sectionName capability

/-- The values that are saved. -/
def values : Saving → List (String × Value)
  | .section _ values => values
  | .choice capability provider model apiKey endpoint =>
    choiceEntries capability provider model apiKey endpoint

/-- The values that are worth saving. -/
def given (call : Saving) : List (String × Value) :=
  call.values.filter fun entry => isGiven entry.2

/-- What the call comes to. -/
def run (call : Saving) (format : Format) (d : Disk) (base : Path) : Except SaveFault Saved :=
  match call with
  | .section name values => saveSection format d base name values
  | .choice capability provider model apiKey endpoint =>
    saveChoice format d base capability provider model apiKey endpoint

/-- The disk after the call. -/
def diskAfter (call : Saving) (format : Format) (d : Disk) (base : Path) : Disk :=
  match call.run format d base with
  | .ok saved => saved.disk
  | .error _ => d

/-- Whether the call reports that the file was written. -/
def Done (call : Saving) (format : Format) (d : Disk) (base : Path) : Prop :=
  ∃ saved, call.run format d base = .ok saved ∧ saved.done = true

end Saving

/-- A call that went through, with the table that it wrote. -/
structure Written where
  call : Saving
  table : List (String × Value)

/-- A run of saves from a disk on, the writes newest first. Between the calls anything may happen to the
disk that leaves what the file holds. -/
inductive Saves (format : Format) (base : Path) (d₀ : Disk) : List Written → Disk → Prop
  | start : Saves format base d₀ [] d₀
  | elsewhere {past : List Written} {d d' : Disk} (before : Saves format base d₀ past d)
    (same : ∀ table, Holds format d base table → Holds format d' base table) :
    Saves format base d₀ past d'
  | done {past : List Written} {d : Disk} {call : Saving} {table : List (String × Value)}
    {warnings : List String} (before : Saves format base d₀ past d)
    (loaded : load format d base = .ok (table, warnings)) (through : call.Done format d base) :
    Saves format base d₀ (⟨call, withSection call.name call.values table⟩ :: past)
      (call.diskAfter format d base)
  | failed {past : List Written} {d : Disk} {call : Saving} (before : Saves format base d₀ past d)
    (refused : ¬ call.Done format d base) : Saves format base d₀ past (call.diskAfter format d base)

section Saves

variable {format : Format} {base : Path} {d d₀ : Disk} {call : Saving} {past : List Written}
  {table : List (String × Value)}

theorem run_eq (call : Saving) (format : Format) (d : Disk) (base : Path) :
    call.run format d base = saveSection format d base call.name call.values := by
  cases call <;> rfl

/-- A call for a section that is not known does nothing. -/
theorem run_of_unknown (hunknown : call.name ∉ knownSections) :
    call.run format d base = .error (.unknownSection call.name) := by
  have hcheck : knownSections.contains call.name = false := by simpa using hunknown
  rw [run_eq, saveSection, hcheck]
  rfl

/-- A call for a known section, where the file is loaded, stores the table with the section replaced. -/
theorem run_of_load {warnings : List String} (hknown : call.name ∈ knownSections)
    (hload : load format d base = .ok (table, warnings)) :
    ∃ saved, call.run format d base = .ok saved ∧
      saved.disk = (store format d base (withSection call.name call.values table)).disk ∧
      (saved.done = true ↔
        (store format d base (withSection call.name call.values table)).obstacle? = none) := by
  have hcheck : (!knownSections.contains call.name) = false := by simpa using hknown
  rw [run_eq]
  simp only [saveSection, hcheck, hload, Bool.false_eq_true, if_false]
  split
  · rename_i hnone
    exact ⟨_, rfl, rfl, by simp [hnone]⟩
  · rename_i obstacle hsome
    exact ⟨_, rfl, rfl, by simp [hsome]⟩

/-- What breaks the loading of the file breaks a call for a known section. -/
theorem run_of_load_error {f : Fault} (hknown : call.name ∈ knownSections)
    (hload : load format d base = .error f) : call.run format d base = .error (.broken f) := by
  have hcheck : (!knownSections.contains call.name) = false := by simpa using hknown
  rw [run_eq]
  simp only [saveSection, hcheck, hload, Bool.false_eq_true, if_false]

/-- A call that goes through is one for a known section, and has stored the table with its section
replaced. -/
theorem store_of_done {warnings : List String} (hload : load format d base = .ok (table, warnings))
    (h : call.Done format d base) :
    (store format d base (withSection call.name call.values table)).obstacle? = none ∧
      call.diskAfter format d base =
        (store format d base (withSection call.name call.values table)).disk := by
  obtain ⟨saved, hrun, hdone⟩ := h
  have hknown : call.name ∈ knownSections := by
    refine Classical.byContradiction fun hunknown => ?_
    rw [run_of_unknown hunknown] at hrun
    cases hrun
  obtain ⟨saved', hrun', hdisk, hiff⟩ := run_of_load hknown hload
  obtain rfl := Except.ok.inj (hrun.symm.trans hrun')
  refine ⟨hiff.mp hdone, ?_⟩
  rw [Saving.diskAfter, hrun]
  exact hdisk

/-- A call that does not go through leaves the disk as it is, or makes the directory of the file. -/
theorem diskAfter_of_not_done (h : ¬ call.Done format d base) :
    call.diskAfter format d base = d ∨ call.diskAfter format d base = settled d base := by
  by_cases hknown : call.name ∈ knownSections
  · cases hload : load format d base with
    | error f =>
      rw [Saving.diskAfter, run_of_load_error hknown hload]
      exact .inl rfl
    | ok loaded =>
      obtain ⟨saved, hrun, hdisk, hiff⟩ := run_of_load hknown hload
      have hobstacle : (store format d base
          (withSection call.name call.values loaded.1)).obstacle?.isSome = true := by
        rw [Option.isSome_iff_ne_none]
        exact fun hnone => h ⟨saved, hrun, hiff.mpr hnone⟩
      rw [Saving.diskAfter, hrun]
      exact .inr (hdisk.trans (disk_store_of_obstacle hobstacle))
  · rw [Saving.diskAfter, run_of_unknown hknown]
    exact .inl rfl

/-- A call that does not go through leaves every file, and what the file holds. -/
theorem holds_of_not_done (h : ¬ call.Done format d base) (hholds : Holds format d base table) :
    Disk.SameFiles d (call.diskAfter format d base) ∧
      Holds format (call.diskAfter format d base) base table := by
  rcases diskAfter_of_not_done h with hdisk | hdisk
  · rw [hdisk]
    exact ⟨.refl d, hholds⟩
  · rw [hdisk]
    refine ⟨Disk.sameFiles_ensureDirectory d _, hholds.2, ?_⟩
    rw [settled_settled]
    exact hholds.2

/-- What stands under a key after some writes: what the last write of the section put there, or what
was there at first. -/
def entryAfter (past : List Written) (original : List (String × Value)) (key : String) :
    Option Value :=
  match past.find? fun w => w.call.name == key with
  | some w => some (.table w.call.given)
  | none => Value.find? key original

theorem entryAfter_cons (w : Written) (past : List Written) (original : List (String × Value))
    (key : String) : entryAfter (w :: past) original key =
      if w.call.name = key then some (.table w.call.given) else entryAfter past original key := by
  rw [entryAfter, List.find?_cons]
  by_cases hkey : w.call.name = key
  · simp only [hkey, beq_self_eq_true, if_true]
  · simp only [beq_eq_false_iff_ne.mpr hkey, if_neg hkey, entryAfter]

/-- After a call that went through the file holds what it held, with the section replaced. -/
theorem holds_of_done {warnings : List String} (hholds : Holds format d base table)
    (hload : load format d base = .ok (table, warnings)) (hdone : call.Done format d base)
    (hundone : Undone format (withSection call.name call.values table)) :
    ∃ found, Holds format (call.diskAfter format d base) base found ∧
      ∀ key, Alike (Value.find? key found)
        (if call.name = key then some (.table call.given) else Value.find? key table) := by
  obtain ⟨found, hfound, halike⟩ := hundone
  obtain ⟨hstored, hdisk⟩ := store_of_done hload hdone
  refine ⟨found, hdisk ▸ holds_of_store hholds hfound hstored, fun key => ?_⟩
  refine (halike.find? key).trans ?_
  rw [withSection, Value.find?_setEntry]
  exact .refl _

/-- At every point of a run the file holds a table with what the last write put there under each
key. -/
theorem holds_of_saves {original : List (String × Value)} (hstart : Holds format d₀ base original)
    (hrun : Saves format base d₀ past d) (hundone : ∀ w ∈ past, Undone format w.table) :
    ∃ table, Holds format d base table ∧
      ∀ key, Alike (Value.find? key table) (entryAfter past original key) := by
  induction hrun with
  | start => exact ⟨original, hstart, fun key => .refl _⟩
  | elsewhere before same ih =>
    obtain ⟨table, hholds, hentries⟩ := ih hundone
    exact ⟨table, same table hholds, hentries⟩
  | @done past d call loaded warnings before hload through ih =>
    obtain ⟨table, hholds, hentries⟩ := ih fun w hw => hundone w (List.mem_cons_of_mem _ hw)
    obtain rfl : loaded = table :=
      congrArg Prod.fst (Except.ok.inj (hload.symm.trans hholds.load))
    obtain ⟨found, hfound, hafter⟩ :=
      holds_of_done hholds hload through (hundone ⟨call, _⟩ List.mem_cons_self)
    refine ⟨found, hfound, fun key => (hafter key).trans ?_⟩
    rw [entryAfter_cons]
    split
    · exact .refl _
    · exact hentries key
  | failed before refused ih =>
    obtain ⟨table, hholds, hentries⟩ := ih hundone
    exact ⟨table, (holds_of_not_done refused hholds).2, hentries⟩

end Saves

/-! ### A run -/

instance (call : Saving) (format : Format) (d : Disk) (base : Path) :
    Decidable (call.Done format d base) :=
  decidable_of_iff
    ((match call.run format d base with
      | .ok saved => saved.done
      | .error _ => false) = true) <| by
    unfold Saving.Done
    cases call.run format d base <;> simp

theorem undone_of_identical {format : Format} {table : List (String × Value)}
    (h : (format.read (String.ofList (Text.unifyBreaks (format.write table).toList))).toOption.map
      (Value.identicalEntries · table) = some true) : Undone format table := by
  obtain ⟨found, hfound, hsame⟩ := Option.map_eq_some_iff.mp h
  refine ⟨found, ?_, Value.eq_of_identicalEntries found table hsame ▸ .refl _⟩
  cases hread : format.read (String.ofList (Text.unifyBreaks (format.write table).toList)) with
  | error reason => simp [hread, Except.toOption] at hfound
  | ok read =>
    rw [hread] at hfound
    exact congrArg Except.ok (Option.some.inj hfound)

theorem load_of_identical {format : Format} {d : Disk} {base : Path} {table : List (String × Value)}
    (h : (load format d base).toOption.map
      (fun loaded => Value.identicalEntries loaded.1 table && loaded.2.isEmpty) = some true) :
    load format d base = .ok (table, []) := by
  obtain ⟨⟨found, warnings⟩, hfound, hsame⟩ := Option.map_eq_some_iff.mp h
  rw [Bool.and_eq_true, List.isEmpty_iff] at hsame
  obtain ⟨hidentical, rfl⟩ := hsame
  rw [← Value.eq_of_identicalEntries found table hidentical]
  cases hload : load format d base with
  | error f => simp [hload, Except.toOption] at hfound
  | ok loaded =>
    rw [hload] at hfound
    exact congrArg Except.ok (Option.some.inj hfound)

/-- A home directory, first one in which nothing can be made, then one in which something can. -/
def homeLocked : Disk := ⟨⟨1, ["home"]⟩, .directory [] { write := false }⟩

def homeFree : Disk := ⟨⟨1, ["home"]⟩, .directory []⟩

def homeBase : Path := ⟨1, ["home", "sift"]⟩

/-- Three calls: two values of the first one are not worth saving, and the section of the last one is
not known. -/
def saveLimits : Saving :=
  .section "search" [("limit", .int 5), ("kind", .text ""), ("threshold", .null)]

def saveHash : Saving := .choice .embeddings "hash" "" "" ""

def saveTheme : Saving := .section "theme" [("dark", .bool true)]

/-- The disk after the calls that go through. -/
def homeSaved : Disk :=
  saveHash.diskAfter .toml (saveLimits.diskAfter .toml homeFree homeBase) homeBase

/-- The writes of the run, the later one first. -/
def homeWrites : List Written := [
  ⟨saveHash, withSection saveHash.name saveHash.values [("search", .table [("limit", .int 5)])]⟩,
  ⟨saveLimits, withSection saveLimits.name saveLimits.values []⟩]

theorem holds_homeLocked : Holds .toml homeLocked homeBase [] :=
  Spells.holds_of_straight (.inl ⟨rfl, rfl⟩) (by decide)

theorem holds_homeFree : Holds .toml homeFree homeBase [] :=
  Spells.holds_of_straight (.inl ⟨rfl, rfl⟩) (by decide)

/-- The first call fails once, before it goes through. -/
theorem saves_home : Saves .toml homeBase homeLocked homeWrites homeSaved := by
  have hlocked : Saves .toml homeBase homeLocked [] (saveLimits.diskAfter .toml homeLocked homeBase) :=
    .failed .start (by decide +kernel)
  have hfree : Saves .toml homeBase homeLocked [] homeFree := by
    refine .elsewhere hlocked fun table hholds => ?_
    have hrefused : ¬ saveLimits.Done .toml homeLocked homeBase := by decide +kernel
    have hempty := (holds_of_not_done hrefused holds_homeLocked).2
    rw [hholds.1.eq hempty.1]
    exact holds_homeFree
  exact .done (.done hfree holds_homeFree.load (by decide +kernel))
    (load_of_identical (by decide +kernel)) (by decide +kernel)

end Config

end CodeSearch
