import CodeSearch.Proofs.Config.Saves
import CodeSearch.Proofs.Text.Lowering

/-!
The settings after a provider was chosen.

A choice that is saved is read again under other rules: what was empty is not in the file, a model that
is missing is looked up under the name of the provider in small letters, and a key that is missing
may come from the environment. The two sets of rules agree (`choiceOf_saved`), and the other sections
give the settings that they gave before, if they hold what the settings expect there. So the settings
after the save are those before it with the choice in its place (`settings_after_choice`).
-/
set_option autoImplicit false

namespace CodeSearch

/-- The other one of the two capabilities. -/
def Service.Capability.other : Service.Capability → Service.Capability
  | .embeddings => .explanations
  | .explanations => .embeddings

namespace Value

/-- A value with no others in it. -/
def isPlain : Value → Bool
  | .list _ => false
  | .table _ => false
  | _ => true

/-- A text. -/
def isText : Value → Bool
  | .text _ => true
  | _ => false

/-- What has the data of a plain value is that value. -/
theorem Alike.eq_of_isPlain {v : Option Value} {w : Value} (h : Alike v (some w))
    (hw : w.isPlain = true) : v = some w := by
  have hsurface := h []
  cases v with
  | none => cases hsurface
  | some v =>
    have hsame : v.surface = w.surface := Option.some.inj hsurface
    cases w with
    | list items => cases hw
    | table entries => cases hw
    | _ => cases v <;> first | exact congrArg some hsame | cases hsame

/-- What has the data of a list of texts is that list. -/
theorem Alike.eq_of_all_isText {v : Option Value} {items : List Value}
    (h : Alike v (some (.list items))) (hitems : items.all isText = true) :
    v = some (.list items) := by
  have hsurface := h []
  cases v with
  | none => cases hsurface
  | some v =>
    cases v with
    | list items' =>
      have hsame : items' = items := by
        refine List.ext_getElem? fun position => ?_
        cases hitem : items[position]? with
        | none => exact (hitem ▸ h.getElem? position).eq_none
        | some item =>
          have htext := List.all_eq_true.mp hitems item (List.mem_of_getElem? hitem)
          refine (hitem ▸ h.getElem? position).eq_of_isPlain ?_
          cases item <;> first | rfl | cases htext
      rw [hsame]
    | _ => cases hsurface

theorem find?_cons (key : String) (entry : String × Value) (rest : List (String × Value)) :
    find? key (entry :: rest) =
      if entry.1 = key then some entry.2 else find? key rest := by
  unfold find?
  by_cases hkey : entry.1 = key
  · rw [List.find?_cons_of_pos (by simpa using hkey), if_pos hkey]
    rfl
  · rw [List.find?_cons_of_neg (by simpa using hkey), if_neg hkey]

theorem find?_eq_none {key : String} {entries : List (String × Value)}
    (hkey : key ∉ entries.map Prod.fst) : find? key entries = none := by
  rw [find?, List.find?_eq_none.mpr, Option.map_none]
  intro entry hentry hsame
  exact hkey (beq_iff_eq.mp hsame ▸ List.mem_map_of_mem hentry)

end Value

namespace Config

open CodeSearch.Files (Disk)
open CodeSearch.Service
open CodeSearch.Text (NameSet)
open CodeSearch.Value (Alike)

/-! ## What the settings expect -/

/-- What is expected under a key: what can be taken for a whole number or for a number, a value with no
others in it, or names. -/
inductive Expected where
  | whole
  | real
  | plain
  | names
deriving DecidableEq

/-- Whether a value is as expected. -/
def Expected.isMet : Expected → Value → Bool
  | .whole, v => v.toInt.toBool
  | .real, v => v.toFloat.toBool
  | .plain, v => v.isPlain
  | .names, .list items => items.all Value.isText
  | .names, _ => false

/-- What the settings expect in each section. -/
def expectations : String → List (String × Expected)
  | "index" => [("skip_dirs", .names), ("max_depth", .whole), ("max_file_bytes", .whole),
    ("context_radius", .whole), ("parse_workers", .whole), ("embed_workers", .whole),
    ("embed_retries", .whole), ("embed_backoff", .real), ("embed_cache_size", .whole)]
  | "vector" => [("enabled", .plain), ("uri", .plain), ("collection", .plain)]
  | "search" => [("threshold", .real), ("limit", .whole), ("ready_timeout", .plain)]
  | "embeddings" | "llm" => [("provider", .plain), ("api_key", .plain), ("model", .plain),
    ("endpoint", .plain), ("dim", .whole)]
  | _ => []

/-- Whether a section is a table in which each value is as expected; a value may be missing. -/
def isAsExpected (name : String) : Value → Bool
  | .table entries => (expectations name).all fun expected =>
    (Value.find? expected.1 entries).all expected.2.isMet
  | _ => false

/-- What has the same data as a value that is as expected is the same value. -/
theorem eq_of_alike_of_isMet {v w : Option Value} (h : Alike v w) {expected : Expected}
    (hmet : w.all expected.isMet = true) : v = w := by
  cases w with
  | none => exact h.eq_none
  | some w =>
    rw [Option.all_some] at hmet
    cases expected with
    | names =>
      cases w with
      | list items => exact h.eq_of_all_isText hmet
      | _ => cases hmet
    | plain => exact h.eq_of_isPlain hmet
    | whole =>
      refine h.eq_of_isPlain ?_
      cases w <;> first | rfl | cases hmet
    | real =>
      refine h.eq_of_isPlain ?_
      cases w <;> first | rfl | cases hmet

/-- The choice that the data of a section makes. -/
def choiceFrom (capability : Capability) (environmentKey provider apiKey model endpoint : String)
    (dimension : Int) : Choice :=
  let named := Text.lower provider
  let provider := if named.isEmpty then (if environmentKey.isEmpty then "none" else "openai") else named
  { provider := provider
    model := orElse model (usualModel capability provider)
    apiKey := if apiKey.isEmpty && provider == "openai" then environmentKey else apiKey
    endpoint := endpoint
    dimension := dimension }

theorem choiceOf_eq {capability : Capability} {table : Value}
    {environmentKey provider apiKey model endpoint : String} {dimension : Int}
    (hprovider : textAt table "provider" "" = .ok provider)
    (hapiKey : textAt table "api_key" "" = .ok apiKey) (hmodel : textAt table "model" "" = .ok model)
    (hendpoint : textAt table "endpoint" "" = .ok endpoint)
    (hdimension : wholeAt table "dim" 256 = .ok dimension) :
    choiceOf capability environmentKey table =
      .ok (choiceFrom capability environmentKey provider apiKey model endpoint dimension) := by
  rw [choiceOf, hprovider, hapiKey, hmodel, hendpoint, hdimension]
  rfl

section Sections

variable {name : String} {before : Value}

/-- Under a key where something is expected the same is found in every section with the same data. -/
theorem exists_getD (key : String) {expected : Expected} (default : Value)
    (hexpected : isAsExpected name before = true) (hkey : (key, expected) ∈ expectations name)
    (hdefault : expected.isMet default = true) :
    ∃ v, expected.isMet v = true ∧
      ∀ after, Alike (some after) (some before) → after.getD key default = .ok v := by
  cases before with
  | table entries =>
    have hmet := List.all_eq_true.mp hexpected _ hkey
    refine ⟨(Value.find? key entries).getD default, ?_, fun after halike => ?_⟩
    · cases hfound : Value.find? key entries with
      | none => exact hdefault
      | some v => simpa [hfound] using hmet
    · obtain ⟨entries', hentries'⟩ := exists_table_of_alike halike.symm
      obtain rfl := Option.some.inj hentries'
      rw [Value.getD, eq_of_alike_of_isMet (halike.find? key) hmet]
  | _ => cases hexpected

theorem exists_ok_of_toBool {ε α : Type} {x : Except ε α} (h : x.toBool = true) :
    ∃ a, x = .ok a := by
  cases x with
  | ok a => exact ⟨a, rfl⟩
  | error e => cases h

theorem exists_wholeAt (key : String) (default : Int) (hexpected : isAsExpected name before = true)
    (hkey : (key, .whole) ∈ expectations name) :
    ∃ i, ∀ after, Alike (some after) (some before) → wholeAt after key default = .ok i := by
  obtain ⟨v, hv, hsame⟩ := exists_getD key (.int default) hexpected hkey rfl
  obtain ⟨i, hi⟩ := exists_ok_of_toBool hv
  exact ⟨i, fun after halike => by rw [wholeAt, hsame after halike]; exact hi⟩

theorem exists_realAt (key : String) (default : Float) (hexpected : isAsExpected name before = true)
    (hkey : (key, .real) ∈ expectations name) :
    ∃ x, ∀ after, Alike (some after) (some before) → realAt after key default = .ok x := by
  obtain ⟨v, hv, hsame⟩ := exists_getD key (.float default) hexpected hkey rfl
  obtain ⟨x, hx⟩ := exists_ok_of_toBool hv
  exact ⟨x, fun after halike => by rw [realAt, hsame after halike]; exact hx⟩

theorem exists_textAt (key default : String) (hexpected : isAsExpected name before = true)
    (hkey : (key, .plain) ∈ expectations name) :
    ∃ s, ∀ after, Alike (some after) (some before) → textAt after key default = .ok s := by
  obtain ⟨v, -, hsame⟩ := exists_getD key (.text default) hexpected hkey rfl
  exact ⟨v.display, fun after halike => by rw [textAt, hsame after halike]; rfl⟩

/-- Texts are members of a set. -/
theorem exists_mapM_memberOf {items : List Value} (hitems : items.all Value.isText = true) :
    ∃ members, items.mapM memberOf = .ok members := by
  induction items with
  | nil => exact ⟨[], rfl⟩
  | cons item items ih =>
    rw [List.all_cons, Bool.and_eq_true] at hitems
    obtain ⟨members, hmembers⟩ := ih hitems.2
    cases item with
    | text s => exact ⟨some s :: members, by rw [List.mapM_cons, hmembers]; rfl⟩
    | _ => cases hitems.1

theorem exists_extraSkips (hexpected : isAsExpected name before = true)
    (hkey : ("skip_dirs", .names) ∈ expectations name) :
    ∃ names, ∀ after, Alike (some after) (some before) → extraSkips after = .ok names := by
  obtain ⟨v, hv, hsame⟩ := exists_getD "skip_dirs" (.list []) hexpected hkey rfl
  cases v with
  | list items =>
    obtain ⟨members, hmembers⟩ := exists_mapM_memberOf hv
    refine ⟨members.filterMap id, fun after halike => ?_⟩
    rw [extraSkips, hsame after halike]
    show (do let members ← items.mapM memberOf; pure (members.filterMap id) : Except Fault _) = _
    rw [hmembers]
    rfl
  | _ => cases hv

/-- A choice is read the same from every section with the same data. -/
theorem exists_choiceOf {capability : Capability}
    (hexpected : isAsExpected (sectionName capability) before = true) (environmentKey : String) :
    ∃ c, ∀ after, Alike (some after) (some before) →
      choiceOf capability environmentKey after = .ok c := by
  have hkeys : expectations (sectionName capability) = [("provider", .plain), ("api_key", .plain),
      ("model", .plain), ("endpoint", .plain), ("dim", .whole)] := by
    cases capability <;> rfl
  obtain ⟨provider, hprovider⟩ := exists_textAt "provider" "" hexpected (by simp [hkeys])
  obtain ⟨apiKey, hapiKey⟩ := exists_textAt "api_key" "" hexpected (by simp [hkeys])
  obtain ⟨model, hmodel⟩ := exists_textAt "model" "" hexpected (by simp [hkeys])
  obtain ⟨endpoint, hendpoint⟩ := exists_textAt "endpoint" "" hexpected (by simp [hkeys])
  obtain ⟨dimension, hdimension⟩ := exists_wholeAt "dim" 256 hexpected (by simp [hkeys])
  exact ⟨_, fun after halike => choiceOf_eq (hprovider after halike) (hapiKey after halike)
    (hmodel after halike) (hendpoint after halike) (hdimension after halike)⟩

/-- The section of a table has the same data if what stands under its name has. -/
theorem sectionOf_alike {table table' : List (String × Value)}
    (h : Alike (Value.find? name table') (Value.find? name table)) :
    Alike (some (sectionOf table' name)) (some (sectionOf table name)) := by
  unfold sectionOf
  cases hfound : Value.find? name table with
  | none =>
    rw [hfound] at h
    rw [h.eq_none]
    exact .refl _
  | some v =>
    rw [hfound] at h
    cases hfound' : Value.find? name table' with
    | none =>
      rw [hfound'] at h
      have hnone := h.symm.eq_none
      cases hnone
    | some v' =>
      rw [hfound'] at h
      exact h

/-- The section of a table in which it stands. -/
theorem sectionOf_saved {table entries : List (String × Value)}
    (h : Alike (Value.find? name table) (some (.table entries))) :
    Alike (some (sectionOf table name)) (some (.table entries)) := by
  obtain ⟨entries', hentries'⟩ := exists_table_of_alike h.symm
  rw [sectionOf, hentries', Option.getD_some, ← hentries']
  exact h

end Sections

/-! ## What is saved and what is read -/

/-- What is found among the values that are worth saving is what is found among all, if it is one of
them. -/
theorem find?_given {values : List (String × Value)} (hkeys : (values.map Prod.fst).Nodup)
    (key : String) :
    Value.find? key (values.filter fun entry => isGiven entry.2) =
      (Value.find? key values).filter isGiven := by
  induction values with
  | nil => rfl
  | cons entry rest ih =>
    obtain ⟨hnew, hrest⟩ := List.nodup_cons.mp hkeys
    specialize ih hrest
    rw [List.filter_cons, Value.find?_cons]
    by_cases hkey : entry.1 = key
    · rw [if_pos hkey, Option.filter_some]
      split
      · rw [Value.find?_cons, if_pos hkey]
      · -- it is left out, and no other one with the key comes
        rw [ih, Value.find?_eq_none (hkey ▸ hnew), Option.filter_none]
    · rw [if_neg hkey, ← ih]
      split
      · rw [Value.find?_cons, if_neg hkey]
      · rfl

section Saved

variable {call : Saving} {saved : Value}

/-- A text that is saved is read again: an empty one is not in the file, and counts as empty. -/
theorem textAt_saved (key : String) {s : String} (hkeys : (call.values.map Prod.fst).Nodup)
    (halike : Alike (some saved) (some (.table call.given)))
    (hvalue : Value.find? key call.values = some (.text s)) : textAt saved key "" = .ok s := by
  obtain ⟨entries, hentries⟩ := exists_table_of_alike halike.symm
  obtain rfl := Option.some.inj hentries
  have hfound := halike.find? key
  rw [Saving.given, find?_given hkeys, hvalue, Option.filter_some] at hfound
  rw [textAt, Value.getD]
  by_cases hs : s = ""
  · subst hs
    rw [hfound.eq_none]
    rfl
  · rw [if_pos (by simpa [isGiven] using hs)] at hfound
    rw [hfound.eq_of_isPlain rfl]
    rfl

theorem wholeAt_saved (halike : Alike (some saved) (some (.table call.given))) {key : String}
    (hvalue : Value.find? key call.given = none) (default : Int) :
    wholeAt saved key default = .ok default := by
  obtain ⟨entries, hentries⟩ := exists_table_of_alike halike.symm
  obtain rfl := Option.some.inj hentries
  have hfound := halike.find? key
  rw [hvalue] at hfound
  rw [wholeAt, Value.getD, hfound.eq_none]
  rfl

end Saved

/-- A provider that has a usual model is spelled in small letters. -/
theorem lower_of_usualModel {capability : Capability} {provider : String}
    (h : usualModel capability provider ≠ "") : Text.lower provider = provider := by
  have hall : ∀ entry ∈ usualModels capability, Text.lower entry.1 = entry.1 := by
    cases capability <;> decide +kernel
  cases hlookup : (usualModels capability).lookup provider with
  | none =>
    rw [usualModel, hlookup] at h
    exact absurd rfl h
  | some model =>
    obtain ⟨before, after, hentries, -⟩ := List.lookup_eq_some_iff.mp hlookup
    exact hall (provider, model) (by simp [hentries])

/-- It is the same whether a missing model is looked up before the save, after it, or both times. -/
theorem orElse_usualModel (capability : Capability) (model provider : String) :
    orElse (orElse model (usualModel capability provider))
        (usualModel capability (Text.lower provider)) =
      orElse model (usualModel capability (Text.lower provider)) := by
  by_cases hmodel : model = ""
  · by_cases husual : usualModel capability provider = ""
    · simp [orElse, hmodel, husual]
    · rw [lower_of_usualModel husual]
      simp [orElse, hmodel]
  · simp [orElse, hmodel]

theorem lower_ne_empty {s : String} (h : s ≠ "") : Text.lower s ≠ "" := by
  rw [Text.lower, Ne, String.ofList_eq_empty_iff]
  exact Text.lowerFrom_ne_nil (by simpa using h)

/-- The choice that is in force after it was saved. -/
def chosen (capability : Capability) (environmentKey provider model apiKey endpoint : String) :
    Choice where
  provider := Text.lower provider
  model := orElse model (usualModel capability (Text.lower provider))
  apiKey := orElse apiKey (if Text.lower provider = "openai" then environmentKey else "")
  endpoint := endpoint

/-- A key that is missing is the one of the environment for one provider, and stays missing for any
other. -/
theorem ite_key_eq (apiKey provider environmentKey : String) :
    (if apiKey.isEmpty && provider == "openai" then environmentKey else apiKey) =
      orElse apiKey (if provider = "openai" then environmentKey else "") := by
  by_cases hkey : apiKey = ""
  · simp [orElse, hkey]
  · simp [orElse, hkey]

/-- What is saved reads as the choice that was made. -/
theorem choiceOf_saved {capability : Capability} {provider model apiKey endpoint : String}
    (hprovider : provider ≠ "") {saved : Value}
    (halike : Alike (some saved)
      (some (.table (Saving.choice capability provider model apiKey endpoint).given)))
    (environmentKey : String) :
    choiceOf capability environmentKey saved =
      .ok (chosen capability environmentKey provider model apiKey endpoint) := by
  have hkeys :
      ((Saving.choice capability provider model apiKey endpoint).values.map Prod.fst).Nodup := by
    show ["provider", "model", "api_key", "endpoint"].Nodup
    decide
  have hdimension : Value.find? "dim" (Saving.choice capability provider model apiKey endpoint).given
      = none := by
    rw [Saving.given, find?_given hkeys]
    rfl
  rw [choiceOf_eq (textAt_saved "provider" hkeys halike rfl)
    (textAt_saved "api_key" hkeys halike rfl)
    (textAt_saved "model" hkeys halike rfl)
    (textAt_saved "endpoint" hkeys halike rfl) (wholeAt_saved halike hdimension 256)]
  have hnamed : (Text.lower provider).isEmpty = false := by simpa using lower_ne_empty hprovider
  simp only [choiceFrom, chosen, hnamed, Bool.false_eq_true, if_false, orElse_usualModel,
    ite_key_eq]

/-! ## The settings -/

/-- The choice for a capability. -/
def Settings.choice (s : Settings) : Capability → Choice
  | .embeddings => s.embeddings
  | .explanations => s.explanations

/-- The settings with another choice for a capability. -/
def Settings.withChoice (s : Settings) (capability : Capability) (c : Choice) : Settings :=
  match capability with
  | .embeddings => { s with embeddings := c }
  | .explanations => { s with explanations := c }

/-- The sections that make no choice. -/
def generalSections : List String := ["index", "vector", "search"]

/-- The settings that do not depend on the two choices are the same for every table in which the other
sections have the same data. -/
theorem exists_ofTable_eq {table : List (String × Value)}
    (hexpected : ∀ name ∈ generalSections, isAsExpected name (sectionOf table name) = true)
    (defaultUri environmentKey : String) :
    ∃ general : Settings, ∀ table' : List (String × Value),
      (∀ name ∈ generalSections, Alike (Value.find? name table') (Value.find? name table)) →
      Settings.ofTable defaultUri environmentKey table' = do
        let embeddings ← choiceOf .embeddings environmentKey (sectionOf table' "embeddings")
        let explanations ← choiceOf .explanations environmentKey (sectionOf table' "llm")
        return { general with embeddings := embeddings, explanations := explanations } := by
  have hindex := hexpected "index" (by decide)
  have hvector := hexpected "vector" (by decide)
  have hsearch := hexpected "search" (by decide)
  obtain ⟨skips, hskips⟩ := exists_extraSkips hindex (by decide)
  obtain ⟨maxDepth, hmaxDepth⟩ := exists_wholeAt "max_depth" 10 hindex (by decide)
  obtain ⟨maxFileBytes, hmaxFileBytes⟩ :=
    exists_wholeAt "max_file_bytes" 100000 hindex (by decide)
  obtain ⟨contextRadius, hcontextRadius⟩ :=
    exists_wholeAt "context_radius" 3 hindex (by decide)
  obtain ⟨parseWorkers, hparseWorkers⟩ :=
    exists_wholeAt "parse_workers" 4 hindex (by decide)
  obtain ⟨embedWorkers, hembedWorkers⟩ :=
    exists_wholeAt "embed_workers" 8 hindex (by decide)
  obtain ⟨embedRetries, hembedRetries⟩ :=
    exists_wholeAt "embed_retries" 2 hindex (by decide)
  obtain ⟨embedBackoff, hembedBackoff⟩ :=
    exists_realAt "embed_backoff" 0.5 hindex (by decide)
  obtain ⟨embedCacheSize, hembedCacheSize⟩ :=
    exists_wholeAt "embed_cache_size" 20000 hindex (by decide)
  obtain ⟨enabled, -, henabled⟩ :=
    exists_getD "enabled" (.bool true) hvector (.head _) rfl
  obtain ⟨uri, huri⟩ := exists_textAt "uri" "" hvector (by decide)
  obtain ⟨collection, hcollection⟩ :=
    exists_textAt "collection" "codebase_embeddings" hvector (by decide)
  obtain ⟨threshold, hthreshold⟩ := exists_realAt "threshold" 0.7 hsearch (by decide)
  obtain ⟨limit, hlimit⟩ := exists_wholeAt "limit" 10 hsearch (by decide)
  obtain ⟨readyTimeout, -, hreadyTimeout⟩ :=
    exists_getD "ready_timeout" .null hsearch (.tail _ (.tail _ (.head _))) rfl
  refine ⟨{
    maxDepth, maxFileBytes, contextRadius
    skip := NameSet.ofList (skippedDirectories ++ skips)
    parseWorkers, embedWorkers, embedRetries, embedBackoff, embedCacheSize
    vectorEnabled := enabled.holds
    vectorUri := orElse uri defaultUri
    collection
    threshold := .real threshold
    limit, readyTimeout }, fun table' halike => ?_⟩
  have hindex' := sectionOf_alike (halike "index" (by decide))
  have hvector' := sectionOf_alike (halike "vector" (by decide))
  have hsearch' := sectionOf_alike (halike "search" (by decide))
  rw [Settings.ofTable, hskips _ hindex', hmaxDepth _ hindex', hmaxFileBytes _ hindex',
    hcontextRadius _ hindex', hparseWorkers _ hindex', hembedWorkers _ hindex',
    hembedRetries _ hindex', hembedBackoff _ hindex', hembedCacheSize _ hindex',
    henabled _ hvector', huri _ hvector', hcollection _ hvector', hthreshold _ hsearch',
    hlimit _ hsearch', hreadyTimeout _ hsearch']
  rfl

/-- Two readings one after the other, of which something is made. -/
theorem both_ok_iff {α : Type} {x y : Except Fault Choice} {make : Choice → Choice → α} {s : α} :
    (do let c ← x; let c' ← y; pure (make c c')) = .ok s ↔
      ∃ c c', x = .ok c ∧ y = .ok c' ∧ s = make c c' := by
  constructor
  · intro h
    cases x with
    | error fault => cases h
    | ok c =>
      cases y with
      | error fault => cases h
      | ok c' => exact ⟨c, c', rfl, rfl, (Except.ok.inj h).symm⟩
  · rintro ⟨c, c', rfl, rfl, rfl⟩
    rfl

/-- The settings can be loaded if both choices can be read. -/
theorem exists_ofTable_ok_iff {table : List (String × Value)}
    (hexpected : ∀ name ∈ generalSections, isAsExpected name (sectionOf table name) = true)
    (defaultUri environmentKey : String) (capability : Capability) :
    ∃ general : Settings, ∀ table' : List (String × Value),
      (∀ name ∈ generalSections, Alike (Value.find? name table') (Value.find? name table)) →
      ∀ s, Settings.ofTable defaultUri environmentKey table' = .ok s ↔ ∃ c c',
        choiceOf capability environmentKey (sectionOf table' (sectionName capability)) = .ok c ∧
        choiceOf capability.other environmentKey
          (sectionOf table' (sectionName capability.other)) = .ok c' ∧
        s = (general.withChoice capability c).withChoice capability.other c' := by
  obtain ⟨general, hgeneral⟩ := exists_ofTable_eq hexpected defaultUri environmentKey
  refine ⟨general, fun table' halike s => ?_⟩
  rw [hgeneral table' halike, both_ok_iff]
  cases capability with
  | embeddings => exact Iff.rfl
  | explanations =>
    constructor
    · rintro ⟨c, c', hc, hc', rfl⟩
      exact ⟨c', c, hc', hc, rfl⟩
    · rintro ⟨c', c, hc', hc, rfl⟩
      exact ⟨c, c', hc, hc', rfl⟩

/-- The sections that the settings are made from. -/
def readSections : List String := ["index", "vector", "search", "embeddings", "llm"]

/-- The settings are made from the table that the file holds. -/
theorem loadSettings_of_holds {format : Format} {d : Disk} {base : Path}
    {table : List (String × Value)} (h : Holds format d base table) (environmentKey : String) :
    loadSettings format d base environmentKey =
      (Settings.ofTable (defaultUri base) environmentKey table, []) := by
  unfold loadSettings
  rw [h.load]

/-- The settings after a provider was chosen for a capability, if the file could be written, the format
reads it back, and the other sections hold what is expected: they can be loaded, the choice is the one
that was made, and all else is as it was before. -/
theorem settings_after_choice {format : Format} {d : Disk} {base : Path}
    {table : List (String × Value)} {capability : Capability}
    {provider model apiKey endpoint : String} (hprovider : provider ≠ "")
    (hholds : Holds format d base table)
    (hdone : (Saving.choice capability provider model apiKey endpoint).Done format d base)
    (hundone : Undone format (withSection (sectionName capability)
      (choiceEntries capability provider model apiKey endpoint) table))
    (hothers : ∀ name ∈ readSections, name ≠ sectionName capability →
      isAsExpected name (sectionOf table name) = true) (environmentKey : String) :
    ∃ after,
      (loadSettings format
        ((Saving.choice capability provider model apiKey endpoint).diskAfter format d base) base
        environmentKey).1 = .ok after ∧
      after.choice capability =
        chosen capability environmentKey provider model apiKey endpoint ∧
      ∀ before, (loadSettings format d base environmentKey).1 = .ok before →
        after = before.withChoice capability
          (chosen capability environmentKey provider model apiKey endpoint) := by
  set call : Saving := .choice capability provider model apiKey endpoint
  set made := chosen capability environmentKey provider model apiKey endpoint
  obtain ⟨table', hheld, hfound⟩ := holds_of_done hholds hholds.load hdone hundone
  rw [loadSettings_of_holds hheld, loadSettings_of_holds hholds]
  have hrest : ∀ name, call.name ≠ name →
      Alike (Value.find? name table') (Value.find? name table) := by
    intro name hname
    have hsame := hfound name
    rwa [if_neg hname] at hsame
  have hname : ∀ name ∈ generalSections, name ∈ readSections ∧ name ≠ sectionName capability := by
    cases capability <;> decide
  obtain ⟨general, hgeneral⟩ := exists_ofTable_ok_iff
    (fun name hmem => hothers name (hname name hmem).1 (hname name hmem).2) (defaultUri base)
    environmentKey capability
  have hafter := hgeneral table' fun name hmem => hrest name (hname name hmem).2.symm
  -- the choice that was saved, and the other one
  have hgiven := hfound call.name
  rw [if_pos rfl] at hgiven
  have hown := choiceOf_saved hprovider (sectionOf_saved hgiven) environmentKey
  have hdiffer : sectionName capability.other ≠ sectionName capability := by
    cases capability <;> decide
  obtain ⟨c', hc'⟩ := exists_choiceOf (hothers (sectionName capability.other)
    (by cases capability <;> decide) hdiffer) environmentKey
  refine ⟨(general.withChoice capability made).withChoice capability.other c',
    (hafter _).mpr ⟨made, c', hown, hc' _ (sectionOf_alike (hrest _ hdiffer.symm)), rfl⟩, ?_,
    fun before hbefore => ?_⟩
  · cases capability <;> rfl
  · obtain ⟨c, c'', -, hc'', rfl⟩ := (hgeneral table (fun _ _ => .refl _) _).mp hbefore
    obtain rfl : c' = c'' := Except.ok.inj ((hc' _ (.refl _)).symm.trans hc'')
    cases capability <;> rfl

/-! ### A provider in capitals -/

/-- A home directory with a file that limits searches and chooses to count words. -/
def homeSet : Disk :=
  ⟨⟨1, ["home"]⟩, .directory [("sift", .directory [("config.toml",
    .file (Text.encode "[search]\nlimit = 5\n\n[embeddings]\nprovider = 'hash'\n".toList))])]⟩

/-- The table of that file. -/
def setTable : List (String × Value) :=
  [("search", .table [("limit", .int 5)]), ("embeddings", .table [("provider", .text "hash")])]

theorem holds_homeSet : Holds .toml homeSet homeBase setTable := by
  have hload : load .toml homeSet homeBase = .ok (setTable, []) :=
    load_of_identical (by decide +kernel)
  have hthere : homeSet.lookup (filePath homeBase) = .ok (.file _ {}) := rfl
  exact (load_eq_iff.mp hload).holds hthere

/-- The model is the usual one of the provider in small letters, and the key comes from the
environment. -/
theorem settings_after_choice_homeSet :
    "OpenAI" ≠ "" ∧ Holds .toml homeSet homeBase setTable ∧
      (Saving.choice .embeddings "OpenAI" "" "" "").Done .toml homeSet homeBase ∧
      Undone .toml (withSection (sectionName .embeddings)
        (choiceEntries .embeddings "OpenAI" "" "" "") setTable) ∧
      (∀ name ∈ readSections, name ≠ sectionName .embeddings →
        isAsExpected name (sectionOf setTable name) = true) ∧
      ∃ before after, (loadSettings .toml homeSet homeBase "sk").1 = .ok before ∧
        (loadSettings .toml
          ((Saving.choice .embeddings "OpenAI" "" "" "").diskAfter .toml homeSet homeBase)
          homeBase "sk").1 = .ok after ∧
        before.embeddings.provider = "hash" ∧ before.limit = 5 ∧ after.limit = 5 ∧
        after.embeddings = ⟨"openai", "text-embedding-3-small", "sk", "", 256⟩ ∧
        after.explanations = before.explanations := by
  have hdone : (Saving.choice .embeddings "OpenAI" "" "" "").Done .toml homeSet homeBase := by
    decide +kernel
  have hundone : Undone .toml (withSection (sectionName .embeddings)
      (choiceEntries .embeddings "OpenAI" "" "" "") setTable) :=
    undone_of_identical (by decide +kernel)
  have hothers : ∀ name ∈ readSections, name ≠ sectionName .embeddings →
      isAsExpected name (sectionOf setTable name) = true := by
    decide +kernel
  have hbefore : (loadSettings .toml homeSet homeBase "sk").1.toOption.map
      (fun s => (s.embeddings.provider, s.limit)) = some ("hash", 5) := by
    decide +kernel
  obtain ⟨after, hafter, hchoice, hall⟩ :=
    settings_after_choice (by decide) holds_homeSet hdone hundone hothers "sk"
  cases hload : (loadSettings .toml homeSet homeBase "sk").1 with
  | error fault =>
    rw [hload] at hbefore
    cases hbefore
  | ok before =>
    rw [hload] at hbefore
    obtain ⟨hprovider, hlimit⟩ := Prod.mk.inj (Option.some.inj hbefore)
    obtain rfl := hall before hload
    exact ⟨by decide, holds_homeSet, hdone, hundone, hothers, before, _, rfl, hafter, hprovider,
      hlimit, hlimit, hchoice.trans (by decide +kernel), rfl⟩

end Config

end CodeSearch
