import CodeSearch.Command.Basic
import CodeSearch.Proofs.Config.Saves

/-!
What a save does to a configuration file that spells no table.

A file that cannot be read, or has a text that breaks the rules of its format, counts as an empty one.
That serves those who only want settings, but a save starts from the same empty table: if the file may be
written, every save of a section that is known goes through, and the file holds that section alone
afterwards. The file stays as it was only where a save does not go through: because its section is not
known, because the file may not be written, or because the loading of it is broken altogether
(`left_iff_refused`).
-/
set_option autoImplicit false

namespace CodeSearch.Config

open CodeSearch.Files (Disk Access)
open CodeSearch.Service
open CodeSearch.Value (Alike)

/-- The file is there with some octets, which spell no table. -/
structure Unparsed (format : Format) (d : Disk) (base : Path) (octets : List UInt8) (access : Access) :
    Prop where
  there : d.lookup (filePath base) = .ok (.file octets access)
  unread : ∀ text table, Text.decode octets = .ok text →
    format.read (String.ofList (Text.unifyBreaks text)) ≠ .ok table

/-- The file counts as an empty one: it may not be read, or it has a text that breaks the rules of the
format. -/
def PassedOver (format : Format) (octets : List UInt8) (access : Access) : Prop :=
  access.read = false ∨ ∃ text, Text.decode octets = .ok text ∧
    format.read (String.ofList (Text.unifyBreaks text)) = .error .malformed

/-- The file spells a table with nothing but the section that a call saves. -/
def aloneText (format : Format) (call : Saving) : String :=
  format.write (withSection call.name call.values [])

section Unparsed

variable {format : Format} {d : Disk} {base : Path} {octets : List UInt8} {access : Access}
  {call : Saving}

/-- What the loading of the file comes to: the empty table with a warning, or what breaks it. -/
theorem load_of_unparsed (h : Unparsed format d base octets access) :
    PassedOver format octets access ∧ load format d base = .ok ([], [unreadable]) ∨
      ¬ PassedOver format octets access ∧ ∃ f, load format d base = .error f := by
  have hhas : d.has (filePath base) = .ok true := by rw [Disk.has, h.there]
  unfold load PassedOver
  simp only [hhas, Disk.read, h.there]
  cases hread : access.read with
  | false => exact .inl ⟨.inl rfl, rfl⟩
  | true =>
    simp only [if_true]
    cases hdecode : Text.decode octets with
    | error fault => exact .inr ⟨by simp, _, rfl⟩
    | ok text =>
      cases hfound : format.read (String.ofList (Text.unifyBreaks text)) with
      | ok table => exact absurd hfound (h.unread text table hdecode)
      | error reason =>
        cases reason with
        | malformed => exact .inl ⟨.inr ⟨text, rfl, hfound⟩, by simp only [hfound]⟩
        | broken f => exact .inr ⟨by simp [hfound], f, by simp only [hfound]⟩

/-- In a file that is there something is stored exactly if it may be written. -/
theorem store_of_file (hlookup : d.lookup (filePath base) = .ok (.file octets access))
    (table : List (String × Value)) :
    (store format d base table).obstacle? = none ↔ access.write = true := by
  rw [← Disk.write_of_file hlookup (Text.encode (format.write table).toList)]
  unfold store
  simp only [Disk.ensureDirectory_of_lookup (steps_filePath_ne_nil base) hlookup]
  cases d.write (filePath base) (Text.encode (format.write table).toList) with
  | error obstacle => simp
  | ok written => simp

/-- When a save goes through. -/
theorem done_iff_of_unparsed (h : Unparsed format d base octets access) :
    call.Done format d base ↔ call.name ∈ knownSections ∧ PassedOver format octets access ∧
      access.write = true := by
  by_cases hknown : call.name ∈ knownSections
  · rcases load_of_unparsed h with ⟨hpassed, hload⟩ | ⟨hpassed, f, hload⟩
    · obtain ⟨saved, hrun, -, hiff⟩ := run_of_load hknown hload
      rw [store_of_file h.there] at hiff
      simp [Saving.Done, hrun, hiff, hknown, hpassed]
    · simp [Saving.Done, run_of_load_error hknown hload, hpassed]
  · simp [Saving.Done, run_of_unknown hknown, hknown]

/-- What is written is the section and nothing else. -/
theorem lookup_of_done (h : Unparsed format d base octets access) (hdone : call.Done format d base) :
    (call.diskAfter format d base).lookup (filePath base) =
      .ok (.file (Text.encode (aloneText format call).toList) access) := by
  rcases load_of_unparsed h with ⟨-, hload⟩ | ⟨hpassed, -⟩
  · obtain ⟨hstored, hdisk⟩ := store_of_done hload hdone
    obtain ⟨access', hlookup, hold⟩ := lookup_of_store hstored
    rw [settled_of_lookup h.there, h.there] at hold
    rcases hold with ⟨old, hsame⟩ | ⟨hnone, -⟩
    · obtain ⟨-, rfl⟩ := Files.Item.file.inj (Except.ok.inj hsame)
      rw [hdisk]
      exact hlookup
    · cases hnone
  · exact absurd ((done_iff_of_unparsed h).mp hdone).2.1 hpassed

/-- A save that does not go through leaves the disk as it was. -/
theorem diskAfter_of_refused (h : Unparsed format d base octets access)
    (hrefused : ¬ call.Done format d base) : call.diskAfter format d base = d := by
  rcases diskAfter_of_not_done hrefused with hdisk | hdisk
  · exact hdisk
  · rw [hdisk, settled_of_lookup h.there]

/-- A text that the format reads back was not in the file. -/
theorem ne_aloneText (h : Unparsed format d base octets access)
    (hundone : Undone format (withSection call.name call.values [])) :
    Text.encode (aloneText format call).toList ≠ octets := by
  rintro rfl
  obtain ⟨found, hfound, -⟩ := hundone
  exact h.unread _ found (Text.decode_encode _) hfound

/-- What is read after a save is the section and nothing else, if the format reads it back. -/
theorem load_alone (h : Unparsed format d base octets access) (hread : access.read = true)
    (hdone : call.Done format d base)
    (hundone : Undone format (withSection call.name call.values [])) :
    ∃ table, load format (call.diskAfter format d base) base = .ok (table, []) ∧
      Alike (Value.find? call.name table) (some (.table call.given)) ∧
      ∀ key ≠ call.name, Value.find? key table = none := by
  obtain ⟨table, htable, halike⟩ := hundone
  have hoctets : (call.diskAfter format d base).read (filePath base) =
      .ok (Text.encode (aloneText format call).toList) := by
    simp only [Disk.read, lookup_of_done h hdone, hread, if_true]
  refine ⟨table, load_eq_iff.mpr (.inr ⟨_, _, hoctets, Text.decode_encode _, htable⟩), ?_, ?_⟩
  · have hentry := halike.find? call.name
    rw [withSection, Value.find?_setEntry, if_pos rfl] at hentry
    exact hentry
  · intro key hother
    have hentry := halike.find? key
    rw [withSection, Value.find?_setEntry, if_neg (Ne.symm hother)] at hentry
    exact hentry.eq_none

end Unparsed

/-! ## Commands -/

/-- The command that chooses a provider for one capability. -/
def choosing (capability : Capability) (provider model apiKey : String) : Command.Request :=
  match capability with
  | .embeddings => .configure (some provider) none model apiKey
  | .explanations => .configure none (some provider) model apiKey

section Choosing

variable {σ : Type} (s : Command.Shell σ) (model apiKey : String)

/-- With no provider for the second capability the command saves the first and changes nothing else. -/
theorem configure_first_snd (provider : Option String) :
    (s.configure provider none model apiKey).2 =
      (s.save .embeddings provider model apiKey).2.2 := by
  have hskip : ∀ t : Command.Shell σ,
      t.save .explanations none model apiKey = (.ok [], [], t) := fun _ => rfl
  unfold Command.Shell.configure
  dsimp only
  split
  · rfl
  · rw [hskip]
    dsimp only
    split <;> rfl

/-- With none for the first one it saves the second. -/
theorem configure_second_snd (provider : Option String) :
    (s.configure none provider model apiKey).2 =
      (s.save .explanations provider model apiKey).2.2 := by
  have hskip : s.save .embeddings none model apiKey = (.ok [], [], s) := rfl
  unfold Command.Shell.configure
  rw [hskip]
  dsimp only
  split
  · rfl
  · split <;> rfl

theorem disk_save (capability : Capability) {provider : String} (hprovider : provider ≠ "") :
    (s.save capability (some provider) model apiKey).2.2.disk =
      (Saving.choice capability (Text.lower provider) model apiKey "").diskAfter s.format s.disk
        s.base := by
  unfold Command.Shell.save Saving.diskAfter Saving.run
  rw [Option.filter_some, if_pos (by simpa using hprovider)]
  dsimp only
  cases saveChoice s.format s.disk s.base capability (Text.lower provider) model apiKey "" with
  | ok saved => rfl
  | error f => cases f <;> rfl

/-- The command saves the choice, with the provider in small letters. -/
theorem disk_run_choosing (capability : Capability) {provider : String} (hprovider : provider ≠ "") :
    (s.run (choosing capability provider model apiKey)).2.disk =
      (Saving.choice capability (Text.lower provider) model apiKey "").diskAfter s.format s.disk
        s.base := by
  rw [← disk_save s model apiKey capability hprovider]
  cases capability with
  | embeddings => rw [choosing, Command.Shell.run, configure_first_snd]
  | explanations => rw [choosing, Command.Shell.run, configure_second_snd]

end Choosing

/-- A file that is there and spells no table. A save goes through exactly if its section is known, the
file counts as an empty one, and it may be written; then the file holds that section alone, whatever it
held before, and nothing is read under any other key. Otherwise the disk stays as it was. So the file
stays as it was exactly if the save does not go through, if the format reads back what was written. The
command that chooses a provider saves to the same effect. -/
theorem left_iff_refused {format : Format} {d : Disk} {base : Path} {octets : List UInt8}
    {access : Access} (h : Unparsed format d base octets access) :
    (∀ call : Saving,
      (call.Done format d base ↔ call.name ∈ knownSections ∧ PassedOver format octets access ∧
        access.write = true) ∧
      (call.Done format d base → (call.diskAfter format d base).lookup (filePath base) =
        .ok (.file (Text.encode (aloneText format call).toList) access)) ∧
      (¬ call.Done format d base → call.diskAfter format d base = d) ∧
      (Undone format (withSection call.name call.values []) →
        ((call.diskAfter format d base).lookup (filePath base) = .ok (.file octets access) ↔
          ¬ call.Done format d base) ∧
        (call.Done format d base → access.read = true →
          ∃ table, load format (call.diskAfter format d base) base = .ok (table, []) ∧
            ∀ key ≠ call.name, Value.find? key table = none))) ∧
    ∀ {σ : Type} (s : Command.Shell σ), s.format = format → s.disk = d → s.base = base →
      ∀ (capability : Capability) (provider model apiKey : String), provider ≠ "" →
        (s.run (choosing capability provider model apiKey)).2.disk =
          (Saving.choice capability (Text.lower provider) model apiKey "").diskAfter format d base := by
  refine ⟨fun call => ⟨done_iff_of_unparsed h, lookup_of_done h, diskAfter_of_refused h,
    fun hundone => ⟨⟨?_, ?_⟩, ?_⟩⟩, ?_⟩
  · intro hleft hdone
    rw [lookup_of_done h hdone] at hleft
    exact ne_aloneText h hundone (Files.Item.file.inj (Except.ok.inj hleft)).1
  · intro hrefused
    rw [diskAfter_of_refused h hrefused]
    exact h.there
  · intro hdone hread
    obtain ⟨table, hload, -, hgone⟩ := load_alone h hread hdone hundone
    exact ⟨table, hload, hgone⟩
  · rintro σ s rfl rfl rfl capability provider model apiKey hprovider
    exact disk_run_choosing s model apiKey capability hprovider

/-! ### A bracket that is missing -/

/-- The octets of a file in which a header does not end. -/
def brokenOctets : List UInt8 :=
  Text.encode "[search]\nlimit = 5\n\n[llm\nprovider = 'ollama'\n".toList

/-- A home directory with that file. -/
def homeBroken : Disk :=
  ⟨⟨1, ["home"]⟩, .directory [("sift", .directory [("config.toml", .file brokenOctets)])]⟩

/-- The same with a file that may not be written. -/
def homeFixed : Disk :=
  ⟨⟨1, ["home"]⟩, .directory [("sift",
    .directory [("config.toml", .file brokenOctets { write := false })])]⟩

def saveDepth : Saving := .section "index" [("max_depth", .int 3)]

theorem malformed_brokenOctets : ∃ text, Text.decode brokenOctets = .ok text ∧
    Format.toml.read (String.ofList (Text.unifyBreaks text)) = .error .malformed := by
  refine ⟨_, Text.decode_encode _, ?_⟩
  have hnone : Toml.read (String.ofList (Text.unifyBreaks
      "[search]\nlimit = 5\n\n[llm\nprovider = 'ollama'\n".toList)) = none :=
    Option.isNone_iff_eq_none.mp (by decide +kernel)
  simp only [Format.toml, hnone]

theorem unparsed_of_brokenOctets {d : Disk} {base : Path} {access : Access}
    (hthere : d.lookup (filePath base) = .ok (.file brokenOctets access)) :
    Unparsed .toml d base brokenOctets access := by
  refine ⟨hthere, fun text table hdecode hread => ?_⟩
  obtain ⟨text', hdecode', hmalformed⟩ := malformed_brokenOctets
  obtain rfl := Except.ok.inj (hdecode.symm.trans hdecode')
  rw [hmalformed] at hread
  cases hread

/-- Saving another section erases what stood there. -/
theorem erased_homeBroken : Unparsed .toml homeBroken homeBase brokenOctets {} ∧
    saveDepth.name ∈ knownSections ∧
    ((saveDepth.diskAfter .toml homeBroken homeBase).read (filePath homeBase)).toOption =
      some (Text.encode "[index]\nmax_depth = 3\n".toList) ∧
    Text.encode "[index]\nmax_depth = 3\n".toList ≠ brokenOctets :=
  ⟨unparsed_of_brokenOctets rfl, by decide, by decide +kernel, by decide +kernel⟩

theorem left_iff_refused_homeBroken :
    Unparsed .toml homeBroken homeBase brokenOctets {} ∧
      Unparsed .toml homeFixed homeBase brokenOctets { write := false } ∧
      Undone .toml (withSection saveDepth.name saveDepth.values []) ∧
      saveDepth.Done .toml homeBroken homeBase ∧
      (saveDepth.diskAfter .toml homeBroken homeBase).lookup (filePath homeBase) ≠
        .ok (.file brokenOctets {}) ∧
      (∃ table, load .toml (saveDepth.diskAfter .toml homeBroken homeBase) homeBase = .ok (table, []) ∧
        Value.find? "search" table = none) ∧
      saveTheme.diskAfter .toml homeBroken homeBase = homeBroken ∧
      saveDepth.diskAfter .toml homeFixed homeBase = homeFixed := by
  have hbroken : Unparsed .toml homeBroken homeBase brokenOctets {} := unparsed_of_brokenOctets rfl
  have hfixed : Unparsed .toml homeFixed homeBase brokenOctets { write := false } :=
    unparsed_of_brokenOctets rfl
  have hundone : Undone .toml (withSection saveDepth.name saveDepth.values []) :=
    undone_of_identical (by decide +kernel)
  obtain ⟨hsaves, -⟩ := left_iff_refused hbroken
  obtain ⟨hsavesFixed, -⟩ := left_iff_refused hfixed
  obtain ⟨hdone, -, -, hleft⟩ := hsaves saveDepth
  have hthrough : saveDepth.Done .toml homeBroken homeBase :=
    hdone.mpr ⟨by decide, .inr malformed_brokenOctets, rfl⟩
  obtain ⟨hiff, hgone⟩ := hleft hundone
  obtain ⟨table, hload, hnone⟩ := hgone hthrough rfl
  refine ⟨hbroken, hfixed, hundone, hthrough, fun hsame => hiff.mp hsame hthrough,
    ⟨table, hload, hnone "search" (by decide)⟩, (hsaves saveTheme).2.2.1 ?_,
    (hsavesFixed saveDepth).2.2.1 ?_⟩
  · exact fun hthere => absurd ((hsaves saveTheme).1.mp hthere).1 (by decide)
  · exact fun hthere => absurd ((hsavesFixed saveDepth).1.mp hthere).2.2 (by decide)

end CodeSearch.Config
