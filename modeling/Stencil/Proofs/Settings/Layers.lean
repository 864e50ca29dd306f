import Stencil.Command.Run
import Stencil.Proofs.Bind
import Stencil.Proofs.Json.Reading
import Stencil.Proofs.Json.RoundTrip

namespace Stencil

namespace Json

def bool? : Json → Option Bool
  | bool b => some b
  | _ => none

def string? : Json → Option String
  | string s => some s
  | _ => none

def strings? : Json → Option (List String)
  | array items => items.mapM string?
  | _ => none

end Json

namespace Settings

theorem flagOf_iff {text : String} :
    flagOf text ↔ text.toList.map Char.toLower ∈ [['t', 'r', 'u', 'e'], ['1'], ['y', 'e', 's']] := by
  simp [flagOf, String.ext_iff]

example : flagOf "YES" = true ∧ flagOf "on" = false := by decide

theorem pathsOf_of_not_mem {text : String} (h : ',' ∉ text.toList) :
    pathsOf text =
      if Text.trim text.toList = [] then [] else [String.ofList (Text.trim text.toList)] := by
  rw [pathsOf, Text.splitOn_of_not_mem h]
  by_cases hempty : Text.trim text.toList = [] <;> simp [hempty]

theorem pathsOf_append {front : String} (h : ',' ∉ front.toList) (rest : String) :
    pathsOf (front ++ "," ++ rest) = pathsOf front ++ pathsOf rest := by
  have hcomma : (front ++ "," ++ rest).toList = front.toList ++ ',' :: rest.toList := by simp
  rw [pathsOf, pathsOf, pathsOf, hcomma, Text.splitOn_append h, Text.splitOn_of_not_mem h, ← List.filterMap_append,
    List.singleton_append]

example : pathsOf " a , ,b/c," = ["a", "b/c"] := by decide

inductive Kind where
  | flag
  | text
  | paths
deriving DecidableEq, Repr

def Kind.fits (j : Json) : Kind → Bool
  | flag => j.bool?.isSome
  | text => j.string?.isSome
  | paths => j.strings?.isSome

def known : List (String × Kind) :=
  [("debug", .flag), ("log_level", .text), ("template_dirs", .paths), ("strip_newline_after_tag", .flag),
    ("strip_whitespace_at_tag", .flag), ("error_markers", .flag)]

/-- A known name is given with a value of another kind than its own. -/
def Misfits (config : Dict Json) : Prop :=
  ∃ entry ∈ known, ∃ j ∈ config.get? entry.1, entry.2.fits j = false

instance (config : Dict Json) : Decidable (Misfits config) :=
  inferInstanceAs (Decidable (∃ entry ∈ _, _))

example : Misfits [("debug", .string "sometimes"), ("port", .int 80)] := by decide

def given {α : Type} (config : Dict Json) (name : String) (read : Json → Option α) : Option α :=
  (config.get? name).bind read

/-- Every setting from a variable of its own, or else from the configuration, or else as it is standard.
Only for the log level the command line comes first. -/
def layered (config : Dict Json) (environment : String → Option String) (logLevel? : Option String) :
    Settings where
  debug := (((environment "LIQUID_DEBUG").map flagOf).or (given config "debug" Json.bool?)).getD true
  logLevel :=
    (logLevel?.or ((environment "LIQUID_LOG_LEVEL").or (given config "log_level" Json.string?))).getD "info"
  directories :=
    (((environment "LIQUID_TEMPLATE_DIRS").map pathsOf).or (given config "template_dirs" Json.strings?)).getD []
  skipNewline :=
    (((environment "LIQUID_STRIP_NEWLINE_AFTER_TAG").map flagOf).or
      (given config "strip_newline_after_tag" Json.bool?)).getD false
  stripLayout :=
    (((environment "LIQUID_STRIP_WHITESPACE_AT_TAG").map flagOf).or
      (given config "strip_whitespace_at_tag" Json.bool?)).getD false
  marksErrors :=
    (((environment "LIQUID_ERROR_MARKERS").map flagOf).or (given config "error_markers" Json.bool?)).getD true

abbrev configured (config : Dict Json) : Settings :=
  layered config (fun _ => none) none

section Decoding

variable {α : Type} {decode : Decoder α} {read : Json → Option α}

theorem toOption_boolean (j : Json) : (boolean j).toOption = j.bool? := by
  cases j <;> rfl

theorem toOption_text (j : Json) : (text j).toOption = j.string? := by
  cases j <;> rfl

theorem toOption_path (j : Json) : (path j).toOption = j.string? := by
  cases j <;> rfl

theorem toOption_mapM (h : ∀ j, (decode j).toOption = read j) (items : List Json) :
    (items.mapM decode).toOption = items.mapM read := by
  induction items with
  | nil => rfl
  | cons j rest ih =>
      rw [List.mapM_cons, List.mapM_cons, ← h, ← ih]
      cases decode j with
      | error _ => rfl
      | ok a => cases rest.mapM decode <;> rfl

theorem toOption_paths (j : Json) : (paths j).toOption = j.strings? := by
  cases j with
  | array items => exact toOption_mapM toOption_path items
  | _ => rfl

theorem optional_of_fits (h : ∀ j, (decode j).toOption = read j) (default : α) {field? : Option Json}
    (hf : ∀ j, field? = some j → (read j).isSome) :
    optional decode default field? = .ok ((field?.bind read).getD default) := by
  cases field? with
  | none => rfl
  | some j =>
      have hj := hf j rfl
      rw [← h] at hj
      rw [Option.bind_some, ← h, optional]
      cases hd : decode j with
      | error e =>
          rw [hd] at hj
          cases hj
      | ok a => rfl

theorem fits_of_optional (h : ∀ j, (decode j).toOption = read j) {default a : α} {field? : Option Json}
    (ho : optional decode default field? = .ok a) {j : Json} (hj : field? = some j) : (read j).isSome := by
  subst hj
  rw [← h, show decode j = .ok a from ho]
  rfl

theorem optional_or {base : Json} {default : α} (hb : decode base = .ok default) (field? : Option Json) :
    optional decode default (field?.or (some base)) = optional decode default field? := by
  cases field? with
  | none => exact hb
  | some j => rfl

end Decoding

def fields (s : Settings) : Dict Json :=
  Dict.ofList
    [("debug", .bool s.debug), ("log_level", .string s.logLevel),
      ("template_dirs", .array (s.directories.map .string)),
      ("strip_newline_after_tag", .bool s.skipNewline),
      ("strip_whitespace_at_tag", .bool s.stripLayout), ("error_markers", .bool s.marksErrors)]

theorem toJson_eq (s : Settings) : s.toJson = .object s.fields :=
  rfl

theorem get?_fields (s : Settings) :
    s.fields.get? "debug" = some (.bool s.debug) ∧
      s.fields.get? "error_markers" = some (.bool s.marksErrors) ∧
      s.fields.get? "log_level" = some (.string s.logLevel) ∧
      s.fields.get? "strip_newline_after_tag" = some (.bool s.skipNewline) ∧
      s.fields.get? "strip_whitespace_at_tag" = some (.bool s.stripLayout) ∧
      s.fields.get? "template_dirs" = some (.array (s.directories.map .string)) := by
  simp [fields, Dict.ofList]

theorem flat_fields (s : Settings) : Json.Flat s.fields := by
  intro name fields h
  have hm := Dict.mem_of_get?_ofList h
  simp at hm

/-- Merging over the standard settings loses nothing that the configuration gives and brings in nothing
that decoding would not take for standard anyway. -/
theorem ofConfig_object {config : Dict Json} (hs : config.Sorted) :
    ofConfig (.object config) = ofFields config := by
  have hget := Json.get?_mergeFields_flat hs standard.flat_fields
  obtain ⟨hd, hm, hl, hn, hw, ht⟩ := standard.get?_fields
  have hflag (b : Bool) := optional_or (show boolean (.bool b) = .ok b from rfl)
  have htext (s : String) := optional_or (show text (.string s) = .ok s from rfl)
  have hpaths := optional_or
    (show paths (.array (standard.directories.map .string)) = .ok standard.directories from rfl)
  rw [ofConfig, toJson_eq, Json.merge, ofJson, ofFields, hget "debug", hget "error_markers",
    hget "log_level", hget "strip_newline_after_tag", hget "strip_whitespace_at_tag",
    hget "template_dirs", hd, hm, hl, hn, hw, ht, hflag, hflag, htext, hflag, hflag, hpaths, ofFields]

theorem ofFields_of_not_misfits {config : Dict Json} (h : ¬Misfits config) :
    ofFields config = .ok (configured config) := by
  have hfits : ∀ entry ∈ known, ∀ j, config.get? entry.1 = some j → entry.2.fits j = true := by
    intro entry he j hj
    cases hf : entry.2.fits j with
    | true => rfl
    | false => exact absurd ⟨entry, he, j, hj, hf⟩ h
  rw [ofFields, optional_of_fits toOption_boolean _ (hfits ("debug", .flag) (by decide)),
    optional_of_fits toOption_boolean _ (hfits ("error_markers", .flag) (by decide)),
    optional_of_fits toOption_text _ (hfits ("log_level", .text) (by decide)),
    optional_of_fits toOption_boolean _ (hfits ("strip_newline_after_tag", .flag) (by decide)),
    optional_of_fits toOption_boolean _ (hfits ("strip_whitespace_at_tag", .flag) (by decide)),
    optional_of_fits toOption_paths _ (hfits ("template_dirs", .paths) (by decide))]
  rfl

theorem not_misfits_of_ofFields {config : Dict Json} {s : Settings} (h : ofFields config = .ok s) :
    ¬Misfits config := by
  obtain ⟨debug, hd, h⟩ := Except.of_bind_ok h
  obtain ⟨marksErrors, hm, h⟩ := Except.of_bind_ok h
  obtain ⟨logLevel, hl, h⟩ := Except.of_bind_ok h
  obtain ⟨skipNewline, hn, h⟩ := Except.of_bind_ok h
  obtain ⟨stripLayout, hw, h⟩ := Except.of_bind_ok h
  obtain ⟨directories, ht, -⟩ := Except.of_bind_ok h
  rintro ⟨entry, he, j, hj, hf⟩
  refine ne_true_of_eq_false hf ?_
  simp only [known, List.mem_cons, List.not_mem_nil, or_false] at he
  obtain rfl | rfl | rfl | rfl | rfl | rfl := he
  · exact fits_of_optional toOption_boolean hd hj
  · exact fits_of_optional toOption_text hl hj
  · exact fits_of_optional toOption_paths ht hj
  · exact fits_of_optional toOption_boolean hn hj
  · exact fits_of_optional toOption_boolean hw hj
  · exact fits_of_optional toOption_boolean hm hj

theorem ofFields_congr {config config' : Dict Json}
    (h : ∀ entry ∈ known, config'.get? entry.1 = config.get? entry.1) : ofFields config' = ofFields config := by
  rw [ofFields, h ("debug", .flag) (by decide), h ("error_markers", .flag) (by decide),
    h ("log_level", .text) (by decide), h ("strip_newline_after_tag", .flag) (by decide),
    h ("strip_whitespace_at_tag", .flag) (by decide), h ("template_dirs", .paths) (by decide), ofFields]

theorem override_of_none {environment : String → Option String}
    (h : ∀ name ∈ overrideNames, environment name = none) (s : Settings) : s.override environment = s := by
  rw [override, h "LIQUID_DEBUG" (by decide), h "LIQUID_LOG_LEVEL" (by decide),
    h "LIQUID_TEMPLATE_DIRS" (by decide), h "LIQUID_STRIP_NEWLINE_AFTER_TAG" (by decide),
    h "LIQUID_STRIP_WHITESPACE_AT_TAG" (by decide), h "LIQUID_ERROR_MARKERS" (by decide)]
  rfl

theorem override_configured (config : Dict Json) (environment : String → Option String)
    (logLevel? : Option String) :
    { (configured config).override environment with
      logLevel := logLevel?.getD ((configured config).override environment).logLevel } =
      layered config environment logLevel? := by
  simp only [configured, override, layered, Option.getD_or, Option.map_none, Option.getD_none]

theorem paths_strings (names : List String) : paths (.array (names.map .string)) = .ok names := by
  induction names with
  | nil => rfl
  | cons name rest ih =>
      rw [paths] at ih ⊢
      rw [List.map_cons, List.mapM_cons, ih]
      rfl

theorem ofFields_fields (s : Settings) : ofFields s.fields = .ok s := by
  obtain ⟨hd, hm, hl, hn, hw, ht⟩ := s.get?_fields
  have hpaths (default : List String) :
      optional paths default (some (.array (s.directories.map .string))) = .ok s.directories :=
    paths_strings s.directories
  rw [ofFields, hd, hm, hl, hn, hw, ht, hpaths]
  rfl

theorem plain_toJson (s : Settings) : Json.Plain Json.nestingLimit s.toJson := by
  refine .object (Dict.sorted_ofList _) fun field hf => ?_
  have hm := Dict.mem_of_mem_ofList hf
  simp only [List.mem_cons, List.not_mem_nil, or_false] at hm
  obtain rfl | rfl | rfl | rfl | rfl | rfl := hm
  · exact .bool
  · exact .string
  · refine .array fun j hj => ?_
    obtain ⟨name, -, rfl⟩ := List.mem_map.1 hj
    exact .string
  · exact .bool
  · exact .bool
  · exact .bool

theorem readConfig_text (s : Settings) : readConfig .json s.toJson.text = some s.toJson :=
  Json.read?_text s.plain_toJson

end Settings

namespace CommandLine

open Settings

variable {line : CommandLine} {complain : Complaint} {files : Files} {environment : String → Option String} {path text : String}
  {config : Dict Json}

section

variable (hc : line.config? = some path) (hr : files.read path = .ok text)
  (hj : readConfig (formatOf path) text = some (.object config))

include hc hr hj

theorem settings_of_error {fault : ShapeFault} (h : ofFields config = .error fault) :
    line.settings complain files environment =
      .error (.configuration (.misshapen (formatOf path) fault)) := by
  simp only [settings, load, hc, ofFile, hr, ofText, hj, ofConfig_object (sorted_of_readConfig hj), h]
  rfl

theorem settings_of_ok {s : Settings} (h : ofFields config = .ok s) :
    line.settings complain files environment =
      .ok { s.override environment with logLevel := line.logLevel?.getD (s.override environment).logLevel } := by
  simp only [settings, load, hc, ofFile, hr, ofText, hj, ofConfig_object (sorted_of_readConfig hj), h]
  rfl

theorem settings_of_not_misfits (h : ¬Misfits config) :
    line.settings complain files environment = .ok (layered config environment line.logLevel?) := by
  rw [settings_of_ok hc hr hj (ofFields_of_not_misfits h), override_configured]

theorem misfits_iff :
    Misfits config ↔ ∃ fault, line.settings complain files environment =
      .error (.configuration (.misshapen (formatOf path) fault)) := by
  constructor
  · intro hm
    cases hf : ofFields config with
    | error fault => exact ⟨fault, settings_of_error hc hr hj hf⟩
    | ok s => exact absurd hm (not_misfits_of_ofFields hf)
  · rintro ⟨fault, he⟩
    refine Classical.byContradiction fun hm => ?_
    rw [settings_of_not_misfits hc hr hj hm] at he
    cases he

theorem settings_congr {files' : Files} {text' : String} {config' : Dict Json}
    (hr' : files'.read path = .ok text') (hj' : readConfig (formatOf path) text' = some (.object config'))
    (h : ∀ entry ∈ known, config'.get? entry.1 = config.get? entry.1) :
    line.settings complain files' environment = line.settings complain files environment := by
  have hf := ofFields_congr h
  cases hs : ofFields config with
  | error fault => rw [settings_of_error hc hr hj hs, settings_of_error hc hr' hj' (hf.trans hs)]
  | ok s => rw [settings_of_ok hc hr hj hs, settings_of_ok hc hr' hj' (hf.trans hs)]

end

/-- A configuration that is an object is refused exactly if a known name has a value of a wrong kind.
Else every setting comes from its own sources alone, names that are not known change nothing, and
settings that were written are read as they were. -/
theorem settings_layered (complain : Complaint) (environment : String → Option String) (hc : line.config? = some path)
    (hr : files.read path = .ok text) :
    (∀ config : Dict Json, readConfig (formatOf path) text = some (.object config) →
      (Misfits config ↔ ∃ fault, line.settings complain files environment =
        .error (.configuration (.misshapen (formatOf path) fault))) ∧
      (¬Misfits config → line.settings complain files environment = .ok (layered config environment line.logLevel?)) ∧
      ∀ (files' : Files) (text' : String) (config' : Dict Json), files'.read path = .ok text' →
        readConfig (formatOf path) text' = some (.object config') →
        (∀ entry ∈ known, config'.get? entry.1 = config.get? entry.1) →
        line.settings complain files' environment = line.settings complain files environment) ∧
    ∀ s : Settings, readConfig .json s.toJson.text = some s.toJson ∧
      (readConfig (formatOf path) text = some s.toJson → (∀ name ∈ overrideNames, environment name = none) →
        line.logLevel? = none → line.settings complain files environment = .ok s) := by
  refine ⟨fun config hj => ⟨misfits_iff hc hr hj, settings_of_not_misfits hc hr hj,
    fun files' text' config' hr' hj' h => settings_congr hc hr hj hr' hj' h⟩,
    fun s => ⟨s.readConfig_text, fun hj he hl => ?_⟩⟩
  rw [settings_of_ok hc hr hj s.ofFields_fields, override_of_none he, hl]
  rfl

def sample : Dict Json :=
  [("debug", .bool true), ("error_markers", .bool false), ("log_level", .string "trace"), ("port", .int 80)]

/-- A variable counts more than the file, the command line more than both, and an unknown name nothing. -/
theorem settings_layered_levels :
    (⟨some "liquid.json", some "warn", .check []⟩ : CommandLine).settings (fun _ text => text)
      (.ofFacts [("liquid.json", ⟨true, .ok ["liquid.json"],
        .ok "\x7b\"debug\":true,\"error_markers\":false,\"log_level\":\"trace\",\"port\":80\x7d"⟩)])
      (fun name => if name = "LIQUID_DEBUG" then some "no" else none) =
      .ok ⟨false, "warn", [], false, false, false⟩ := by
  have hp : Json.Plain Json.nestingLimit (.object sample) := by
    refine .object (by unfold Dict.Sorted; decide) ?_
    simp only [sample, List.forall_mem_cons]
    exact ⟨.bool, .bool, .string, .int ⟨by decide, by decide⟩, fun _ h => absurd h List.not_mem_nil⟩
  have hm : ¬Misfits sample := by decide
  have hj : readConfig (formatOf "liquid.json") _ = some (.object sample) := Json.read?_text hp
  exact ((settings_layered _ _ rfl rfl).1 sample hj).2.1 hm

end CommandLine

end Stencil
