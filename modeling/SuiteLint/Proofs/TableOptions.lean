import SuiteLint.Proofs.AssignedOptions
import SuiteLint.Proofs.TextParts

/-!
# Tables and command lines

The same options can stand in a table of `pyproject.toml`, or on a command line, with a flag for each value
and the paths at the end. Both are read to the same options.
-/

namespace SuiteLint

def Flag.long (f : Flag) : String := f.spellings.getLast?.getD ""

@[simp] theorem Flag.mem_all (f : Flag) : f ∈ all := by cases f <;> decide

theorem Flag.ofSpelling?_long (f : Flag) : ofSpelling? f.long = some f := by
  have hall : ∀ f ∈ all, ofSpelling? f.long = some f := by decide +kernel
  exact hall f f.mem_all

namespace Command

def IsValue (word : String) : Prop := word.toList.head? ≠ some '-'

instance (word : String) : Decidable (IsValue word) := inferInstanceAs (Decidable (_ ≠ _))

theorem IsValue.ne_dashes {word : String} (h : IsValue word) {dashed : String}
    (hdashed : ¬ IsValue dashed) : word ≠ dashed := by
  rintro rfl
  exact hdashed h

theorem classify_value {word : String} (h : IsValue word) : classify word = .ok (.plain word) :=
  if_pos h

private theorem classify_long (f : Flag) : classify f.long = .ok (.flagged ⟨f, f.long, none⟩) := by
  have hall : ∀ f ∈ Flag.all, ¬ IsValue f.long := by decide +kernel
  have hdash : ¬ f.long.toList.head? ≠ some '-' := hall f f.mem_all
  simp only [classify, if_neg hdash, f.ofSpelling?_long]

namespace Act

def Fits (a : Act) : Prop :=
  a.value = none ∧ a.flag.arity = .none ∨
    ∃ value, a.value = some value ∧ a.flag.arity = .one ∧ IsValue value

/-- A flag with its value as it is written on a command line. -/
def words (a : Act) : List String := a.flag.long :: a.value.toList

def marks (a : Act) : List Word :=
  .flagged ⟨a.flag, a.flag.long, none⟩ :: a.value.toList.map .plain

end Act

theorem classifyAll_cons {word : String} {words : List String} {first : Word} {rest : List Word}
    (hword : word ≠ "--") (hfirst : classify word = .ok first) (hrest : classifyAll words = .ok rest) :
    classifyAll (word :: words) = .ok (first :: rest) := by
  rw [classifyAll, if_neg hword, hfirst, hrest]
  rfl

theorem classifyAll_values {words : List String} (h : ∀ word ∈ words, IsValue word) :
    classifyAll words = .ok (words.map .plain) := by
  induction words with
  | nil => rfl
  | cons word words ih =>
    have hword := h word List.mem_cons_self
    exact classifyAll_cons (hword.ne_dashes (by decide)) (classify_value hword)
      (ih fun other hother => h other (List.mem_cons_of_mem word hother))

theorem classifyAll_written {acts : List Act} (hacts : ∀ a ∈ acts, a.Fits) {paths : List String}
    (hpaths : ∀ path ∈ paths, IsValue path) :
    classifyAll (acts.flatMap Act.words ++ paths) =
      .ok (acts.flatMap Act.marks ++ paths.map .plain) := by
  induction acts with
  | nil => exact classifyAll_values hpaths
  | cons a acts ih =>
    have hrest := ih fun b hb => hacts b (List.mem_cons_of_mem a hb)
    have hlong : ∀ f ∈ Flag.all, f.long ≠ "--" := by decide
    have hflag := hlong a.flag a.flag.mem_all
    simp only [List.flatMap_cons, Act.words, Act.marks, List.cons_append, List.append_assoc]
    apply classifyAll_cons hflag (classify_long a.flag)
    rcases hacts a List.mem_cons_self with ⟨hvalue, -⟩ | ⟨value, hvalue, -, hplain⟩
    · rw [hvalue]
      exact hrest
    · rw [hvalue]
      exact classifyAll_cons (hplain.ne_dashes (by decide)) (classify_value hplain) hrest

theorem parse_plain {stage : Stage} (hstage : stage ≠ .after) (paths : List String) :
    parse stage (paths.map .plain) = ⟨[], paths, [], none⟩ := by
  induction paths generalizing stage with
  | nil => rfl
  | cons path paths ih =>
    have hnext : stage.next ≠ .after := by
      rw [Stage.next, if_neg hstage]
      decide
    rw [List.map_cons, parse, ih hnext, Parsed.addPlain, if_neg hstage]

theorem parse_flag {f : Flag} (h : f.arity = .none) (words : List Word) :
    parse .before (.flagged ⟨f, f.long, none⟩ :: words) =
      (parse .before words).add ⟨[⟨f, none⟩], false⟩ := by
  have hresolve (next : Option String) :
      Mark.resolve ⟨f, f.long, none⟩ next = .ok ⟨[⟨f, none⟩], false⟩ := by
    simp only [Mark.resolve, take, h]
  cases words with
  | nil => simp only [parse, hresolve]
  | cons word words => cases word <;> simp only [parse, hresolve] <;> rfl

private theorem parse_flag_value {f : Flag} (h : f.arity = .one) (value : String) (words : List Word) :
    parse .before (.flagged ⟨f, f.long, none⟩ :: .plain value :: words) =
      (parse .before words).add ⟨[⟨f, some value⟩], true⟩ := by
  have hresolve : Mark.resolve ⟨f, f.long, none⟩ (some value) = .ok ⟨[⟨f, some value⟩], true⟩ := by
    simp only [Mark.resolve, take, h]
  simp only [parse, hresolve, if_true, Stage.close]

private theorem parse_marks {a : Act} (h : a.Fits) (words : List Word) :
    parse .before (a.marks ++ words) =
      { parse .before words with acts := a :: (parse .before words).acts } := by
  obtain ⟨flag, value⟩ := a
  rcases h with ⟨rfl, harity⟩ | ⟨value, rfl, harity, -⟩
  · exact parse_flag harity words
  · exact parse_flag_value harity value words

private theorem parse_written {acts : List Act} (hacts : ∀ a ∈ acts, a.Fits) (paths : List String) :
    parse .before (acts.flatMap Act.marks ++ paths.map .plain) = ⟨acts, paths, [], none⟩ := by
  induction acts with
  | nil => exact parse_plain (by decide) paths
  | cons a acts ih =>
    rw [List.flatMap_cons, List.append_assoc, parse_marks (hacts a List.mem_cons_self),
      ih fun b hb => hacts b (List.mem_cons_of_mem a hb)]

def reserved : List String := ["-A", "--argumentfile", "--verbose", "-vv"]

def Act.IsSetting (a : Act) : Prop := textOf? a.flag = none ∧ a.flag ≠ .output

end Command

def Options.setAll (o : Options) (acts : List Command.Act) : Options :=
  acts.foldl (fun o a => o.set a.flag (a.value.getD "")) o

namespace Command

theorem perform_settings (s : Session) (o : Options) {acts : List Act} (h : ∀ a ∈ acts, a.IsSetting) :
    perform s o acts = (s, .ok (o.setAll acts)) := by
  induction acts generalizing o with
  | nil => rfl
  | cons a acts ih =>
    obtain ⟨htext, houtput⟩ := h a List.mem_cons_self
    have hrest := ih (o.set a.flag (a.value.getD "")) fun b hb => h b (List.mem_cons_of_mem a hb)
    simp only [perform, htext, houtput, decide_false, Bool.false_and, Bool.false_eq_true, if_false, hrest]
    rfl

theorem read_written (s : Session) (o : Options) {acts : List Act}
    (hacts : ∀ a ∈ acts, a.Fits ∧ a.IsSetting) {paths : List String}
    (hpaths : ∀ path ∈ paths, IsValue path) :
    read s o (acts.flatMap Act.words ++ paths) =
      (s, .ok { o.setAll acts with paths := if paths = [] then Options.standard.paths else paths }) := by
  have hfits := fun a ha => (hacts a ha).1
  have herase : paths.erase "--" = paths :=
    List.erase_of_not_mem fun hmem => (hpaths "--" hmem).ne_dashes (by decide) rfl
  have hlist : Parsed.pathList ⟨acts, paths, [], none⟩ =
      if paths = [] then Options.standard.paths else paths := by
    simp only [Parsed.pathList, herase]
    cases paths <;> rfl
  simp only [read, classifyAll_written hfits hpaths, parse_written hfits paths,
    perform_settings s o fun a ha => (hacts a ha).2, hlist]

end Command

namespace Toml

theorem foldl_putPlain {table entries : List (String × Value)}
    (h : (table.map (·.1) ++ entries.map fun entry => plainKey entry.1).Nodup) :
    entries.foldl putPlain table = table ++ entries.map fun entry => (plainKey entry.1, entry.2) := by
  induction entries generalizing table with
  | nil => simp
  | cons entry entries ih =>
    have hnew : table.lookup (plainKey entry.1) = none := by
      rw [List.lookup_eq_none_iff]
      intro old hold
      have hne := (List.nodup_append.mp h).2.2 old.1 (List.mem_map_of_mem hold) (plainKey entry.1)
        List.mem_cons_self
      exact bne_iff_ne.mpr hne.symm
    have hput : putPlain table entry = table ++ [(plainKey entry.1, entry.2)] := by
      rw [putPlain, hnew]
      rfl
    rw [List.foldl_cons, hput, ih (by simpa using h), List.append_assoc]
    rfl

private theorem plainKeys_of_nodup {entries : List (String × Value)}
    (h : (entries.map fun entry => plainKey entry.1).Nodup) :
    plainKeys entries = entries.map fun entry => (plainKey entry.1, entry.2) :=
  foldl_putPlain h

end Toml

/-- The options that hold lists of texts. -/
inductive ListOption where
  | included | excluded | reports | ignored | extraRules | fileTypes | settings
  deriving DecidableEq

namespace ListOption

def field : ListOption → OptionField
  | included => .included
  | excluded => .excluded
  | reports => .reports
  | ignored => .ignored
  | extraRules => .extraRules
  | fileTypes => .fileTypes
  | settings => .settings

def flag : ListOption → Flag
  | included => .included
  | excluded => .excluded
  | reports => .reports
  | ignored => .ignored
  | extraRules => .extraRules
  | fileTypes => .fileTypes
  | settings => .setting

def key : ListOption → String
  | included => "include"
  | excluded => "exclude"
  | reports => "reports"
  | ignored => "ignore"
  | extraRules => "ext-rules"
  | fileTypes => "filetypes"
  | settings => "configure"

def plain : ListOption → String
  | extraRules => "ext_rules"
  | option => option.key

/-- Adds texts to an option: settings in order, and others where they are not there yet. -/
def enter (option : ListOption) (o : Options) (texts : List String) : Options :=
  match option with
  | included =>
    { o with selection := { o.selection with included := Options.addAll o.selection.included texts } }
  | excluded =>
    { o with selection := { o.selection with excluded := Options.addAll o.selection.excluded texts } }
  | reports => { o with reports := Options.addAll o.reports texts }
  | ignored => { o with ignored := Options.addAll o.ignored texts }
  | extraRules => { o with extraRules := Options.addAll o.extraRules texts }
  | fileTypes => { o with fileTypes := Options.addAll o.fileTypes (texts.map Options.fileType) }
  | settings => { o with settings := o.settings ++ texts }

def IsSingle : ListOption → String → Prop
  | settings, text => Text.trim text.toList = text.toList
  | _, text => ',' ∉ text.toList

instance : (option : ListOption) → (text : String) → Decidable (option.IsSingle text)
  | settings, text => inferInstanceAs (Decidable (Text.trim text.toList = text.toList))
  | included, text | excluded, text | reports, text | ignored, text | extraRules, text | fileTypes, text =>
    inferInstanceAs (Decidable (',' ∉ text.toList))

private theorem enter_nil (option : ListOption) (o : Options) : option.enter o [] = o := by
  cases option with
  | settings => simp only [enter, List.append_nil]
  | _ => rfl

private theorem enter_cons (option : ListOption) (o : Options) (text : String) (texts : List String) :
    option.enter (option.enter o [text]) texts = option.enter o (text :: texts) := by
  cases option with
  | settings => simp only [enter, List.append_assoc, List.singleton_append]
  | _ => rfl

theorem set_flag {option : ListOption} (o : Options) {text : String} (h : option.IsSingle text) :
    o.set option.flag text = option.enter o [text] := by
  have hparts (hcomma : ',' ∉ text.toList) : Options.parts text = [text] := by
    rw [Options.parts, Text.splitAt_of_not_mem hcomma, List.map_cons, List.map_nil, String.ofList_toList]
  cases option with
  | settings =>
    have htrim : Text.trim text.toList = text.toList := h
    simp only [flag, Options.set, enter, htrim, String.ofList_toList]
  | _ => simp only [flag, Options.set, enter, hparts h, List.map_cons, List.map_nil]

theorem setAll_flags {option : ListOption} (o : Options) {texts : List String}
    (h : ∀ text ∈ texts, option.IsSingle text) :
    o.setAll (texts.map fun text => ⟨option.flag, some text⟩) = option.enter o texts := by
  induction texts generalizing o with
  | nil => exact (option.enter_nil o).symm
  | cons text texts ih =>
    have hrest := ih (option.enter o [text]) fun other hother => h other (List.mem_cons_of_mem text hother)
    have hfirst := set_flag o (h text List.mem_cons_self)
    rw [List.map_cons, Options.setAll, List.foldl_cons, Option.getD_some, hfirst]
    exact hrest.trans (option.enter_cons o text texts)

end ListOption

/-- An option in a table of settings. -/
inductive TableSetting where
  | list (option : ListOption) (texts : List String)
  | threshold (letter : String)
  | format (form : String)
  | paths (first : String) (more : List String)
  | flat (on : Bool)

namespace TableSetting

def field : TableSetting → OptionField
  | list option _ => option.field
  | threshold _ => .threshold
  | format _ => .format
  | paths _ _ => .paths
  | flat _ => .recursive

def key : TableSetting → String
  | list option _ => option.key
  | threshold _ => "threshold"
  | format _ => "format"
  | paths _ _ => "paths"
  | flat _ => "no_recursive"

/-- The key with underscores for dashes. -/
def plain : TableSetting → String
  | list option _ => option.plain
  | e => e.key

def value : TableSetting → Toml.Value
  | list _ texts => .list (texts.map .text)
  | threshold letter => .text letter
  | format form => .text form
  | paths first more => .list ((first :: more).map .text)
  | flat on => .flag on

/-- The flags for an option on a command line, one for each value. -/
def acts : TableSetting → List Command.Act
  | list option texts => texts.map fun text => ⟨option.flag, some text⟩
  | threshold letter => [⟨.threshold, some letter⟩]
  | format form => [⟨.format, some form⟩]
  | paths _ _ => []
  | flat on => if on then [⟨.flat, none⟩] else []

def pathWords : TableSetting → List String
  | paths first more => first :: more
  | _ => []

/-- A setting that can be written with flags: no value looks like a flag, and flags take in the texts of
lists as they are. -/
def IsPlain : TableSetting → Prop
  | list option texts => ∀ text ∈ texts, Command.IsValue text ∧ option.IsSingle text
  | threshold text | format text => Command.IsValue text
  | paths first more => ∀ path ∈ first :: more, Command.IsValue path
  | flat _ => True

instance : (e : TableSetting) → Decidable e.IsPlain
  | list option texts =>
    inferInstanceAs (Decidable (∀ text ∈ texts, Command.IsValue text ∧ option.IsSingle text))
  | threshold text | format text => inferInstanceAs (Decidable (Command.IsValue text))
  | paths first more => inferInstanceAs (Decidable (∀ path ∈ first :: more, Command.IsValue path))
  | flat _ => inferInstanceAs (Decidable True)

def enter (o : Options) : TableSetting → Options
  | list option texts => option.enter o texts
  | threshold letter => { o with selection := { o.selection with threshold := .ofThreshold letter } }
  | format form => { o with format := form }
  | paths first more => { o with paths := first :: more }
  | flat on => { o with recursive := !on }

theorem plainKey_key (e : TableSetting) : Toml.plainKey e.key = e.plain := by
  have hlist (option : ListOption) : Toml.plainKey option.key = option.plain := by
    cases option <;> decide +kernel
  cases e with
  | list option texts => exact hlist option
  | _ =>
    simp only [key, plain]
    decide +kernel

theorem ofKey?_plain (e : TableSetting) : OptionField.ofKey? e.plain = some e.field := by
  cases e with
  | list option texts => cases option <;> rfl
  | _ => rfl

private theorem texts_list (texts : List String) : (Toml.Value.list (texts.map .text)).texts = texts := by
  rw [Toml.Value.texts, List.filterMap_map]
  exact List.filterMap_some

theorem setFromTable?_eq {o : Options} {e : TableSetting}
    (h : o.get e.field = Options.standard.get e.field) :
    o.setFromTable? e.plain e.value = some (e.enter o) := by
  cases e with
  | list option texts =>
    cases option with
    | settings =>
      have hnone : o.settings = [] := h
      simp only [plain, ListOption.plain, ListOption.key, value, Options.setFromTable?, texts_list, enter,
        ListOption.enter, hnone, List.nil_append]
    | _ =>
      simp only [plain, ListOption.plain, ListOption.key, value, Options.setFromTable?, texts_list, enter,
        ListOption.enter]
  | paths first more => simp only [plain, key, value, Options.setFromTable?, texts_list, enter]
  | _ => rfl

/-- Flags enter a setting as a table does, whatever the paths are. -/
theorem setAll_acts {o : Options} {e : TableSetting} (hplain : e.IsPlain)
    (h : o.get e.field = Options.standard.get e.field) (paths : List String) :
    { o with paths := paths }.setAll e.acts = { e.enter o with paths := paths } := by
  cases e with
  | list option texts =>
    have hflags := ListOption.setAll_flags { o with paths := paths } fun text htext => (hplain text htext).2
    rw [acts, hflags]
    cases option <;> rfl
  | flat on =>
    have hdeep : o.recursive = true := h
    cases on with
    | false =>
      have hsame : enter o (flat false) = o := by simp only [enter, Bool.not_false, ← hdeep]
      rw [hsame]
      rfl
    | true => rfl
  | _ => rfl

theorem get_enter {o : Options} {e : TableSetting} (h : o.get e.field = Options.standard.get e.field)
    {field : OptionField} (hfield : e.field ≠ field) : (e.enter o).get field = o.get field := by
  apply Options.get_setFromTable? (setFromTable?_eq h)
  rw [ofKey?_plain]
  exact fun hsame => hfield (Option.some.inj hsame)

def enterAll (o : Options) (entries : List TableSetting) : Options :=
  entries.foldl (fun o e => e.enter o) o

/-- Options that are as they start out where the settings are for them, each for another one. -/
structure Awaits (o : Options) (entries : List TableSetting) : Prop where
  distinct : (entries.map field).Nodup
  unset : ∀ e ∈ entries, o.get e.field = Options.standard.get e.field

theorem Awaits.tail {o : Options} {e : TableSetting} {entries : List TableSetting}
    (h : Awaits o (e :: entries)) : Awaits (e.enter o) entries := by
  obtain ⟨hfresh, hdistinct⟩ := List.nodup_cons.mp (List.map_cons ▸ h.distinct)
  refine ⟨hdistinct, fun other hother => ?_⟩
  have hne : e.field ≠ other.field := fun hsame => hfresh (hsame ▸ List.mem_map_of_mem hother)
  rw [get_enter (h.unset e List.mem_cons_self) hne]
  exact h.unset other (List.mem_cons_of_mem e hother)

theorem field_ne (e : TableSetting) : e.field ≠ .output ∧ e.field ≠ .verbose := by
  cases e with
  | list option texts => cases option <;> exact ⟨nofun, nofun⟩
  | _ => exact ⟨nofun, nofun⟩

theorem nodup_fields {entries : List TableSetting} (h : (entries.map key).Nodup) :
    (entries.map field).Nodup := by
  have hkey {e other : TableSetting} (hfield : e.field = other.field) : e.key = other.key := by
    cases e with
    | list option texts =>
      cases other with
      | list option' texts' => cases option <;> cases option' <;> first | rfl | cases hfield
      | _ => cases option <;> cases hfield
    | _ =>
      cases other with
      | list option' texts' => cases option' <;> cases hfield
      | _ => first | rfl | cases hfield
  exact List.pairwise_map.mpr
    ((List.pairwise_map.mp h).imp fun hne hfield => hne (hkey hfield))

theorem plainKeys_eq {entries : List TableSetting} (h : (entries.map field).Nodup) :
    Toml.plainKeys (entries.map fun e => (e.key, e.value)) = entries.map fun e => (e.plain, e.value) := by
  have hplain {e other : TableSetting} (hsame : e.plain = other.plain) : e.field = other.field := by
    have hfield := e.ofKey?_plain
    rw [hsame, ofKey?_plain] at hfield
    exact (Option.some.inj hfield).symm
  have hdistinct : (entries.map plain).Nodup :=
    List.pairwise_map.mpr ((List.pairwise_map.mp h).imp fun hne hsame => hne (hplain hsame))
  rw [Toml.plainKeys_of_nodup, List.map_map]
  · apply List.map_congr_left
    intro e _
    exact congrArg (·, e.value) e.plainKey_key
  · rw [List.map_map]
    have hkeys : (fun entry : String × Toml.Value => Toml.plainKey entry.1) ∘
        (fun e : TableSetting => (e.key, e.value)) = plain := funext plainKey_key
    rw [hkeys]
    exact hdistinct

theorem takeSettings_eq (s : Session) {o : Options} {entries : List TableSetting} (h : Awaits o entries) :
    s.takeSettings o (entries.map fun e => (e.plain, e.value)) = (s, .ok (enterAll o entries)) := by
  induction entries generalizing o with
  | nil => rfl
  | cons e entries ih =>
    have hkey : e.plain ≠ "output" := by
      intro hsame
      have hfield := e.ofKey?_plain
      rw [hsame] at hfield
      exact e.field_ne.1 (Option.some.inj hfield).symm
    simp only [List.map_cons, Session.takeSettings, setFromTable?_eq (h.unset e List.mem_cons_self),
      if_neg hkey]
    exact ih h.tail

theorem setAll_flatMap_acts {o : Options} {entries : List TableSetting} (h : Awaits o entries)
    (hplain : ∀ e ∈ entries, e.IsPlain) (paths : List String) :
    { o with paths := paths }.setAll (entries.flatMap acts) = { enterAll o entries with paths := paths } := by
  induction entries generalizing o with
  | nil => rfl
  | cons e entries ih =>
    have hfirst := setAll_acts (hplain e List.mem_cons_self) (h.unset e List.mem_cons_self) paths
    rw [List.flatMap_cons, Options.setAll, List.foldl_append]
    rw [Options.setAll] at hfirst
    rw [hfirst]
    exact ih h.tail fun other hother => hplain other (List.mem_cons_of_mem e hother)

private theorem pathWords_eq_nil {e : TableSetting} (h : e.field ≠ .paths) : e.pathWords = [] := by
  cases e with
  | paths first more => exact absurd rfl h
  | _ => rfl

/-- The paths are those of the one setting for them. -/
theorem paths_enterAll {o : Options} {entries : List TableSetting} (h : Awaits o entries) :
    (enterAll o entries).paths =
      if entries.flatMap pathWords = [] then o.paths else entries.flatMap pathWords := by
  induction entries generalizing o with
  | nil => rfl
  | cons e entries ih =>
    have hrest := ih h.tail
    rw [List.flatMap_cons]
    by_cases hpaths : e.field = .paths
    · have hnone : entries.flatMap pathWords = [] := by
        rw [List.flatMap_eq_nil_iff]
        intro other hother
        apply pathWords_eq_nil
        intro hother'
        have hfresh := (List.nodup_cons.mp (List.map_cons ▸ h.distinct)).1
        exact hfresh (hpaths.trans hother'.symm ▸ List.mem_map_of_mem hother)
      rw [if_pos hnone] at hrest
      rw [hnone, List.append_nil]
      cases e with
      | list option texts => cases option <;> cases hpaths
      | paths first more => exact hrest
      | _ => cases hpaths
    · have hsame : (e.enter o).paths = o.paths := get_enter (h.unset e List.mem_cons_self) hpaths
      rw [pathWords_eq_nil hpaths, List.nil_append, ← hsame]
      exact hrest

def commandLine (entries : List TableSetting) : List String :=
  (entries.flatMap acts).flatMap Command.Act.words ++ entries.flatMap pathWords

/-- The flags that settings of a table are written with. -/
def flags : List Flag :=
  [.included, .excluded, .reports, .ignored, .extraRules, .fileTypes, .setting, .threshold, .format, .flat]

private theorem fits_of_isValue {f : Flag} (hf : f ∈ flags) (harity : f.arity = .one) {value : String}
    (h : Command.IsValue value) :
    (⟨f, some value⟩ : Command.Act).flag ∈ flags ∧ (⟨f, some value⟩ : Command.Act).Fits :=
  ⟨hf, Or.inr ⟨value, rfl, harity, h⟩⟩

theorem mem_acts {e : TableSetting} (h : e.IsPlain) {a : Command.Act} (ha : a ∈ e.acts) :
    a.flag ∈ flags ∧ a.Fits := by
  cases e with
  | list option texts =>
    obtain ⟨text, htext, rfl⟩ := List.mem_map.mp ha
    have hvalue := (h text htext).1
    cases option <;> exact fits_of_isValue (by decide) rfl hvalue
  | threshold letter =>
    obtain rfl := List.mem_singleton.mp ha
    exact fits_of_isValue (by decide) rfl h
  | format form =>
    obtain rfl := List.mem_singleton.mp ha
    exact fits_of_isValue (by decide) rfl h
  | paths first more => cases ha
  | flat on =>
    cases on with
    | false => cases ha
    | true =>
      obtain rfl := List.mem_singleton.mp ha
      exact ⟨by decide, Or.inl ⟨rfl, rfl⟩⟩

theorem isValue_of_mem_pathWords {e : TableSetting} (h : e.IsPlain) {path : String}
    (hpath : path ∈ e.pathWords) : Command.IsValue path := by
  cases e with
  | paths first more => exact h path hpath
  | _ => cases hpath

/-- On a command line of settings, nothing asks for an argument file or for more notes. -/
theorem not_mem_commandLine {entries : List TableSetting} (h : ∀ e ∈ entries, e.IsPlain) {word : String}
    (hword : word ∈ Command.reserved) : word ∉ commandLine entries := by
  have hdash : ∀ word ∈ Command.reserved, ¬ Command.IsValue word := by decide
  have hlong : ∀ f ∈ flags, f.long ∉ Command.reserved := by decide
  intro hmem
  rcases List.mem_append.mp hmem with hflag | hpath
  · obtain ⟨a, ha, hwords⟩ := List.mem_flatMap.mp hflag
    obtain ⟨e, he, ha⟩ := List.mem_flatMap.mp ha
    obtain ⟨hflags, hfits⟩ := mem_acts (h e he) ha
    rcases List.mem_cons.mp hwords with rfl | hvalue
    · exact hlong a.flag hflags hword
    · rcases hfits with ⟨hnone, -⟩ | ⟨value, hsome, -, hplain⟩
      · simp [hnone] at hvalue
      · rw [hsome, Option.toList_some, List.mem_singleton] at hvalue
        exact hdash word hword (hvalue ▸ hplain)
  · obtain ⟨e, he, hpath⟩ := List.mem_flatMap.mp hpath
    exact hdash word hword (isValue_of_mem_pathWords (h e he) hpath)

theorem read_commandLine (s : Session) {entries : List TableSetting}
    (h : Awaits .standard entries) (hplain : ∀ e ∈ entries, e.IsPlain) :
    Command.read s .standard (commandLine entries) = (s, .ok (enterAll .standard entries)) := by
  have hsettings : ∀ f ∈ flags, Command.textOf? f = none ∧ f ≠ .output := by decide
  have hacts : ∀ a ∈ entries.flatMap acts, a.Fits ∧ a.IsSetting := by
    intro a ha
    obtain ⟨e, he, ha⟩ := List.mem_flatMap.mp ha
    obtain ⟨hflags, hfits⟩ := mem_acts (hplain e he) ha
    exact ⟨hfits, hsettings a.flag hflags⟩
  have hpaths : ∀ path ∈ entries.flatMap pathWords, Command.IsValue path := by
    intro path hpath
    obtain ⟨e, he, hpath⟩ := List.mem_flatMap.mp hpath
    exact isValue_of_mem_pathWords (hplain e he) hpath
  have hset : Options.standard.setAll (entries.flatMap acts) =
      { enterAll .standard entries with paths := Options.standard.paths } :=
    setAll_flatMap_acts h hplain Options.standard.paths
  rw [commandLine, Command.read_written s .standard hacts hpaths, hset, ← paths_enterAll h]

end TableSetting

theorem ArgumentFile.splice_of_no_request (project : Project) {words : List String}
    (h : ∀ word ∈ words, isRequest word = false) : splice project words = .ok (words, none) := by
  induction words with
  | nil => rfl
  | cons word words ih =>
    have hword := h word List.mem_cons_self
    have hrest := ih fun other hother => h other (List.mem_cons_of_mem word hother)
    cases words with
    | nil => simp only [splice, hword, Bool.false_eq_true, if_false]
    | cons name words =>
      simp only [splice, hword, Bool.false_eq_true, if_false, hrest]
      rfl

/-- A command line of its own is read on top of the options as they start out, and no file with settings
is looked for. -/
theorem Request.load_of_read {s s' : Session} {words : List String} {o : Options}
    (hread : Command.read s .standard words = (s', .ok o)) (hwords : words ≠ [])
    (h : ∀ word ∈ Command.reserved, word ∉ words)
    (hquiet : o.verbose = false) : (ofWords words).load s = (s', .ok o.tidy) := by
  have hne {word other : String} (hword : word ∈ Command.reserved) (hother : other ∈ words) :
      other ≠ word := fun hsame => h word hword (hsame ▸ hother)
  have hsplice : ArgumentFile.splice s.project words = .ok (words, none) := by
    apply ArgumentFile.splice_of_no_request
    intro word hword
    have hshort : word ≠ "-A" := hne (by decide) hword
    have hlong : word ≠ "--argumentfile" := hne (by decide) hword
    simp [ArgumentFile.isRequest, hshort, hlong]
  have hlooks : looksForFiles words = false := by
    have hsingle {word : String} (hword : word ∈ Command.reserved) : words ≠ [word] :=
      fun hsame => h word hword (hsame ▸ List.mem_singleton_self word)
    have hlong : words ≠ ["--verbose"] := hsingle (by decide)
    have hshort : words ≠ ["-vv"] := hsingle (by decide)
    simp [looksForFiles, hwords, hlong, hshort]
  have hgather : (ofWords words).gather s = (s, .ok (words, .standard)) := by
    simp only [gather, ofWords, Option.getD_some, hsplice, hlooks, Bool.not_false, if_true,
      Option.getD_none]
  have hbase : (ofWords words).base .standard = .standard := rfl
  have htidy : o.tidy.verbose = false := hquiet
  simp only [load, hgather, List.isEmpty_eq_false_iff.mpr hwords, hbase, hread, htidy, Bool.false_eq_true,
    if_false]

namespace Session

/-- A table `[tool.robocop]` with distinct keys, whose values can be written with flags, gives the same
options as the command line with a flag for each value and the paths at the end. -/
theorem table_matches_command_line (s : Session) {entries : List TableSetting}
    (hkeys : (entries.map (·.key)).Nodup) (hplain : ∀ e ∈ entries, e.IsPlain) :
    ∃ o : Options,
      s.takeTable .standard (entries.map fun e => (e.key, e.value)) = (s, .ok (o, !entries.isEmpty)) ∧
      Command.read s .standard (TableSetting.commandLine entries) = (s, .ok o) ∧
      (TableSetting.commandLine entries ≠ [] →
        (Request.ofWords (TableSetting.commandLine entries)).load s = (s, .ok o.tidy)) := by
  have hawaits : TableSetting.Awaits .standard entries :=
    ⟨TableSetting.nodup_fields hkeys, fun _ _ => rfl⟩
  have htable := TableSetting.takeSettings_eq s hawaits
  have hread := TableSetting.read_commandLine s hawaits hplain
  have hnotes : ∀ entry ∈ entries.map fun e => (e.plain, e.value),
      OptionField.ofKey? entry.1 ≠ some .verbose := by
    intro entry hentry
    obtain ⟨e, -, rfl⟩ := List.mem_map.mp hentry
    rw [TableSetting.ofKey?_plain]
    exact fun hsame => e.field_ne.2 (Option.some.inj hsame)
  have hquiet : (TableSetting.enterAll .standard entries).verbose = false :=
    get_takeSettings htable hnotes
  refine ⟨_, ?_, hread, ?_⟩
  · rw [takeTable, TableSetting.plainKeys_eq hawaits.distinct, htable]
    cases entries <;> rfl
  · intro hwords
    exact Request.load_of_read hread hwords
      (fun word hword => TableSetting.not_mem_commandLine hplain hword) hquiet

end Session

/-- Rules by severity and by glob, a setting with a comma, and paths ahead of other options. -/
def TableSetting.mixed : List TableSetting :=
  [.paths "tests" ["atest/rules"], .list .included ["W0504", "*doc*"], .flat true,
    .list .fileTypes [".txt", "tsv"], .list .settings ["0809:sections_order:settings,keywords"],
    .threshold "e"]

def Session.bare : Session := ⟨⟨.directory [], ⟨"/", []⟩, [], [], fun _ => none⟩, []⟩

theorem Session.table_matches_command_line_mixed :
    ∃ o : Options,
      bare.takeTable .standard (TableSetting.mixed.map fun e => (e.key, e.value)) =
        (bare, .ok (o, true)) ∧
      (Request.ofWords ["--include", "W0504", "--include", "*doc*", "--no-recursive", "--filetypes", ".txt",
        "--filetypes", "tsv", "--configure", "0809:sections_order:settings,keywords", "--threshold", "e",
        "tests", "atest/rules"]).load bare = (bare, .ok o.tidy) := by
  have hkeys : (TableSetting.mixed.map (·.key)).Nodup := by decide +kernel
  have hplain : ∀ e ∈ TableSetting.mixed, e.IsPlain := by decide +kernel
  obtain ⟨o, htable, -, hload⟩ := table_matches_command_line bare hkeys hplain
  exact ⟨o, htable, hload (List.cons_ne_nil _ _)⟩

end SuiteLint
