import Tactmon.Backend.Listener
import Tactmon.Backend.RibbitMonitor
import Tactmon.Frontend.Tracking
import Tactmon.Lib.Collecting

/-!
# Completion of parameters

What the commands suggest while a parameter is typed: the dispatch of `Discord`,
`ICommand::HandleAutoCompleteEvent`, which finds the focused parameter and the
ones beside it, and `ICommand::HandleAutoComplete`, which goes through a cache.

The options of an event are a tree, and only the first child of a level is gone
into.  `visited` is what the walk reads.  The values of `siblings` are the filters
of the loops, and `matching` is what the loops would suggest without a limit.
`respond_suggestions` says so of the reply, for a text that is not empty.

What a response keeps of the choices it is given is up to `add_autocomplete_choice` of
dpp, which is a parameter.  `KeepsFirst` is what it is documented to do.

By `registered_respond` the filters do nothing for the commands there are: the
options of `/download` are read at the top, where no value is kept, and `add` is
among the values only where `filepath` has no completion.
-/

namespace Tactmon

namespace Frontend

open Backend Binary Collecting Text

/-! ## The options of an event -/

/-- An option of an autocomplete event. -/
inductive CompletionOption where
  | mk (name : Bytes) (value : CommandValue) (focused : Bool) (options : List CompletionOption)

namespace CompletionOption

def name : CompletionOption → Bytes
  | .mk name _ _ _ => name

def value : CompletionOption → CommandValue
  | .mk _ value _ _ => value

def focused : CompletionOption → Bool
  | .mk _ _ focused _ => focused

end CompletionOption

/-- `dpp::autocomplete_t`: the name of the command, the options of the event and
those of its interaction. -/
structure AutocompleteEvent where
  command : Bytes
  options : List CompletionOption
  interaction : List CompletionOption

/-- `AutocompletionContext`, with its values. -/
structure AutocompletionContext where
  values : List (Bytes × CommandValue)

namespace AutocompletionContext

/-- `values.find`. -/
def find (context : AutocompletionContext) (name : Bytes) : Option CommandValue :=
  context.values.lookup name

/-- `get<std::string>`. -/
def get (context : AutocompletionContext) (name : Bytes) : Option Bytes :=
  (context.find name).bind CommandValue.text?

def has (context : AutocompletionContext) (token : Bytes) : Bool := (context.find token).isSome

/-- `values.emplace`, which keeps the value that is there. -/
def emplace (context : AutocompletionContext) (name : Bytes) (value : CommandValue) :
    AutocompletionContext :=
  if context.has name then context else ⟨context.values ++ [(name, value)]⟩

end AutocompletionContext

/-! ## Finding the focused option -/

/-- The locals of `HandleAutoCompleteEvent`. -/
structure Search where
  focusedName : Bytes
  focusedValue : CommandValue
  drillDown : Bool
  context : AutocompletionContext

namespace Search

/-- Before the loops. -/
def start : Search := ⟨[], .monostate, true, ⟨[]⟩⟩

/-- The body of the first `if` of both loops. -/
def focus (s : Search) (option : CompletionOption) : Search :=
  { s with focusedName := option.name, focusedValue := option.value, drillDown := false }

/-- The loop over the options of the event. -/
def overEvent : Search → List CompletionOption → Search
  | s, [] => s
  | s, evntOption :: options =>
      overEvent (if evntOption.focused then s.focus evntOption else s) options

/-- The loop over the children of one option. -/
def overChildren : Search → List CompletionOption → Search
  | s, [] => s
  | s, eopt :: options =>
      overChildren
        (if eopt.focused then s.focus eopt
        else { s with context := s.context.emplace eopt.name eopt.value })
        options

mutual
/-- A round of the `while`, on the first option of a level. -/
def drillInto (s : Search) : CompletionOption → Search
  | .mk _ _ _ options =>
      if (s.overChildren options).drillDown then (s.overChildren options).drill options
      else s.overChildren options

/-- The `while`, which goes into the first option. -/
def drill (s : Search) : List CompletionOption → Search
  | [] => s
  | current :: _ => s.drillInto current
end

end Search

/-- `HandleAutoCompleteEvent`, up to the call of `HandleAutoComplete`. -/
def AutocompleteEvent.search (evnt : AutocompleteEvent) : Search :=
  if (Search.start.overEvent evnt.options).drillDown then
    (Search.start.overEvent evnt.options).drill evnt.interaction
  else Search.start.overEvent evnt.options

/-! ## The suggestions -/

/-- `dpp::command_option_choice`. -/
structure Choice where
  name : Bytes
  value : Bytes
deriving DecidableEq

/-- The rows that the caches give to `WithValues`. -/
structure Caches where
  products : List ProductRow
  builds : List BuildRow
  trackedFiles : List TrackedFile

/-- `text.find(part) != npos`. -/
def contains (part text : Bytes) : Bool := decide (part <:+: text)

/-- A filter that may not be there. -/
def admits : Option Bytes → Bytes → Bool
  | none, _ => true
  | some part, text => contains part text

/-- How `HandleAutoComplete` ends. -/
inductive Handled where
  | declined
  | replied (choices : List Choice)
  | threw
deriving DecidableEq

section Handlers

variable (addChoice : List Choice → Choice → List Choice)

/-- The suggestions for `product`. -/
def suggestProducts (optionValue : Bytes) (entries : List ProductRow) : List Choice :=
  collect (fun entry => contains optionValue entry.name)
    (fun choices entry => addChoice choices ⟨entry.name, entry.name⟩) 100 0 [] entries

/-- The suggestions for `version`. -/
def suggestBuilds (optionValue : Bytes) (productFilter regionFilter : Option Bytes)
    (entries : List BuildRow) : List Choice :=
  collectNew (fun entry => contains optionValue entry.buildName)
    (fun entry => admits productFilter entry.productName && admits regionFilter entry.region)
    BuildRow.buildName (fun choices buildName => addChoice choices ⟨buildName, buildName⟩) 100 []
    [] entries

/-- The suggestions for `filepath`. -/
def suggestFiles (optionValue : Bytes) (productFilter : Option Bytes)
    (entries : List TrackedFile) : List Choice :=
  collect
    (fun entry => admits productFilter entry.productName && contains optionValue entry.filePath)
    (fun choices entry => addChoice choices ⟨entry.displayName, entry.filePath⟩) 100 0 [] entries

/-- The start of each case of `HandleAutoComplete`. -/
def withText (value : CommandValue) (suggest : Bytes → List Choice) : Handled :=
  match value with
  | .text [] => .declined
  | .text (c :: part) => .replied (suggest (c :: part))
  | .monostate => .threw
  | .other => .threw

/-- `HandleAutoComplete`. -/
def handleAutoComplete (name : Bytes) (value : CommandValue) (context : AutocompletionContext)
    (db : Caches) : Handled :=
  if name = ascii "product" then
    withText value fun optionValue => suggestProducts addChoice optionValue db.products
  else if name = ascii "version" then
    withText value fun optionValue =>
      suggestBuilds addChoice optionValue (context.get (ascii "product"))
        (context.get (ascii "region")) db.builds
  else if name = ascii "filepath" ∧ context.has (ascii "add") = true then
    withText value fun optionValue =>
      suggestFiles addChoice optionValue (context.get (ascii "product")) db.trackedFiles
  else .declined

/-- What is sent.  A reply without choices is sent where the event is not handled,
and none where an exception is thrown. -/
def Handled.reply : Handled → Option (List Choice)
  | .declined => some []
  | .replied choices => some choices
  | .threw => none

/-- `HandleAutoCompleteEvent`. -/
def handleAutoCompleteEvent (evnt : AutocompleteEvent) (db : Caches) : Option (List Choice) :=
  if evnt.search.focusedName.isEmpty then some []
  else if evnt.search.focusedValue.monostate?.isSome then some []
  else (handleAutoComplete addChoice evnt.search.focusedName evnt.search.focusedValue
    evnt.search.context db).reply

/-- `Discord::HandleAutoCompleteEvent`.  The commands differ in `Matches` only, and
an event for none of them is answered without choices. -/
def respond (commands : List Bytes) (evnt : AutocompleteEvent) (db : Caches) :
    Option (List Choice) :=
  if commands.contains evnt.command then handleAutoCompleteEvent addChoice evnt db else some []

end Handlers

/-! ## What the walk reads -/

mutual
/-- The children of an option, those of its first child, and so on. -/
def levelsOf : CompletionOption → List (List CompletionOption)
  | .mk _ _ _ options => options :: levels options

/-- The levels under the first option of a list. -/
def levels : List CompletionOption → List (List CompletionOption)
  | [] => []
  | current :: _ => levelsOf current
end

/-- The levels up to the first with a focused option. -/
def visited : List (List CompletionOption) → List CompletionOption
  | [] => []
  | level :: rest =>
      if level.any CompletionOption.focused then level else level ++ visited rest

/-- The last focused option. -/
def lastFocused (options : List CompletionOption) : Option CompletionOption :=
  (options.filter CompletionOption.focused).getLast?

theorem lastFocused_eq_none {options : List CompletionOption}
    (h : options.any CompletionOption.focused = false) : lastFocused options = none := by
  rw [lastFocused, List.filter_eq_nil_iff.mpr (by simpa using h), List.getLast?_nil]

theorem lastFocused_ne_none {options : List CompletionOption}
    (h : options.any CompletionOption.focused = true) : lastFocused options ≠ none := by
  intro hnone
  rw [lastFocused, List.getLast?_eq_none_iff, List.filter_eq_nil_iff] at hnone
  obtain ⟨option, hmem, hfocused⟩ := List.any_eq_true.mp h
  exact hnone option hmem hfocused

theorem lastFocused_cons_of_pos {option : CompletionOption} {options : List CompletionOption}
    (h : option.focused = true) :
    lastFocused (option :: options) = some ((lastFocused options).getD option) := by
  rw [lastFocused, List.filter_cons_of_pos h, List.getLast?_cons]
  rfl

theorem lastFocused_cons_of_neg {option : CompletionOption} {options : List CompletionOption}
    (h : option.focused = false) : lastFocused (option :: options) = lastFocused options := by
  rw [lastFocused, List.filter_cons_of_neg (by simp [h])]
  rfl

/-- The first option of a name. -/
def named (name : Bytes) (options : List CompletionOption) : Option CompletionOption :=
  options.find? fun option => decide (option.name = name)

theorem named_cons (name : Bytes) (option : CompletionOption) (options : List CompletionOption) :
    named name (option :: options) =
      if option.name = name then some option else named name options := by
  rw [named, List.find?_cons]
  by_cases h : option.name = name
  · rw [decide_eq_true h, if_pos h]
  · rw [decide_eq_false h, if_neg h, named]

namespace AutocompletionContext

/-- The values of the options that are not focused. -/
def emplaceAll (context : AutocompletionContext) (options : List CompletionOption) :
    AutocompletionContext :=
  options.foldl (fun context option =>
    if option.focused then context else context.emplace option.name option.value) context

theorem find_emplace (context : AutocompletionContext) (name : Bytes) (value : CommandValue)
    (other : Bytes) :
    (context.emplace name value).find other =
      (context.find other).or (if name = other then some value else none) := by
  rw [emplace, has]
  cases hfind : context.find name with
  | some found =>
      rw [Option.isSome_some, if_pos rfl]
      by_cases hname : name = other
      · rw [if_pos hname, ← hname, hfind, Option.some_or]
      · rw [if_neg hname, Option.or_none]
  | none =>
      rw [Option.isSome_none, if_neg Bool.false_ne_true, find, List.lookup_append, ← find]
      by_cases hname : name = other
      · rw [if_pos hname, hname, List.lookup_cons_self]
      · rw [if_neg hname, List.lookup_cons, beq_false_of_ne (Ne.symm hname), List.lookup_nil]

theorem find_emplaceAll (context : AutocompletionContext) (options : List CompletionOption)
    (name : Bytes) :
    (context.emplaceAll options).find name = (context.find name).or
      ((named name (options.filter fun option => !option.focused)).map CompletionOption.value) := by
  induction options generalizing context with
  | nil => exact Option.or_none.symm
  | cons option options ih =>
      rw [emplaceAll, List.foldl_cons, ← emplaceAll, ih]
      cases hfocused : option.focused with
      | true => rw [if_pos rfl, List.filter_cons_of_neg (by simp [hfocused])]
      | false =>
          rw [if_neg Bool.false_ne_true, find_emplace, List.filter_cons_of_pos (by simp [hfocused]),
            named_cons, Option.or_assoc]
          by_cases hname : option.name = name
          · rw [if_pos hname, if_pos hname, Option.some_or, Option.map_some]
          · rw [if_neg hname, if_neg hname, Option.none_or]

end AutocompletionContext

namespace Search

/-- An option is focused, if there is one. -/
def settle (s : Search) : Option CompletionOption → Search
  | none => s
  | some option => s.focus option

theorem overEvent_eq (s : Search) (options : List CompletionOption) :
    s.overEvent options = s.settle (lastFocused options) := by
  induction options generalizing s with
  | nil => rfl
  | cons option options ih =>
      rw [overEvent, ih]
      cases hfocused : option.focused with
      | false => rw [lastFocused_cons_of_neg hfocused, if_neg Bool.false_ne_true]
      | true =>
          rw [lastFocused_cons_of_pos hfocused, if_pos rfl]
          cases lastFocused options <;> rfl

theorem overChildren_eq (s : Search) (options : List CompletionOption) :
    s.overChildren options =
      { s.settle (lastFocused options) with context := s.context.emplaceAll options } := by
  induction options generalizing s with
  | nil => rfl
  | cons option options ih =>
      rw [overChildren, ih]
      cases hfocused : option.focused with
      | false =>
          rw [lastFocused_cons_of_neg hfocused, if_neg Bool.false_ne_true,
            AutocompletionContext.emplaceAll, AutocompletionContext.emplaceAll, List.foldl_cons,
            hfocused, if_neg Bool.false_ne_true]
          cases lastFocused options <;> rfl
      | true =>
          rw [lastFocused_cons_of_pos hfocused, if_pos rfl, AutocompletionContext.emplaceAll,
            AutocompletionContext.emplaceAll, List.foldl_cons, hfocused, if_pos rfl]
          cases lastFocused options <;> rfl

theorem overChildren_append (s : Search) (options others : List CompletionOption) :
    s.overChildren (options ++ others) = (s.overChildren options).overChildren others := by
  induction options generalizing s with
  | nil => rfl
  | cons option options ih => exact ih _

theorem overChildren_drillDown (s : Search) (options : List CompletionOption) :
    (s.overChildren options).drillDown =
      (s.drillDown && !options.any CompletionOption.focused) := by
  induction options generalizing s with
  | nil => simp [overChildren]
  | cons option options ih =>
      rw [overChildren, ih, List.any_cons]
      cases option.focused <;> simp [focus]

mutual
theorem drillInto_eq {s : Search} (h : s.drillDown = true) (option : CompletionOption) :
    s.drillInto option = s.overChildren (visited (levelsOf option)) := by
  cases option with
  | mk name value focused options =>
      rw [drillInto, overChildren_drillDown, h, levelsOf, visited]
      cases hany : options.any CompletionOption.focused with
      | true => rfl
      | false =>
          rw [if_pos (by rfl), if_neg Bool.false_ne_true, overChildren_append]
          exact drill_eq (by rw [overChildren_drillDown, h, hany]; rfl) options

theorem drill_eq {s : Search} (h : s.drillDown = true) (options : List CompletionOption) :
    s.drill options = s.overChildren (visited (levels options)) := by
  cases options with
  | nil => rfl
  | cons current rest =>
      rw [drill, levels]
      exact drillInto_eq h current
end

end Search

/-! ## What an event asks for -/

namespace AutocompleteEvent

/-- The options that are read until one is focused. -/
def read (evnt : AutocompleteEvent) : List CompletionOption :=
  if evnt.options.any CompletionOption.focused then evnt.options
  else visited (levels evnt.interaction)

/-- The parameter that is typed. -/
def focusedOption (evnt : AutocompleteEvent) : Option CompletionOption := lastFocused evnt.read

/-- The parameters beside it.  Nothing is kept of the options of the event. -/
def siblings (evnt : AutocompleteEvent) : List CompletionOption :=
  if evnt.options.any CompletionOption.focused then []
  else evnt.read.filter fun option => !option.focused

/-- The value of a parameter beside it. -/
def beside (evnt : AutocompleteEvent) (name : Bytes) : Option CommandValue :=
  (named name evnt.siblings).map CompletionOption.value

/-- A value that has to be in the row. -/
def filter (evnt : AutocompleteEvent) (name : Bytes) : Option Bytes :=
  (evnt.beside name).bind CommandValue.text?

/-- The parameters with suggestions. -/
def Completes (evnt : AutocompleteEvent) (name : Bytes) : Prop :=
  name = ascii "product" ∨ name = ascii "version" ∨
    name = ascii "filepath" ∧ (evnt.beside (ascii "add")).isSome = true

instance (evnt : AutocompleteEvent) (name : Bytes) : Decidable (evnt.Completes name) := by
  unfold Completes
  infer_instance

/-- The suggestions without a limit. -/
def matching (evnt : AutocompleteEvent) (db : Caches) (name part : Bytes) : List Choice :=
  if name = ascii "product" then
    (db.products.filter fun entry => contains part entry.name).map fun entry =>
      ⟨entry.name, entry.name⟩
  else if name = ascii "version" then
    ((db.builds.filter fun entry => contains part entry.buildName &&
        (admits (evnt.filter (ascii "product")) entry.productName &&
          admits (evnt.filter (ascii "region")) entry.region)).map
      BuildRow.buildName).eraseDups.map fun buildName => ⟨buildName, buildName⟩
  else if name = ascii "filepath" ∧ (evnt.beside (ascii "add")).isSome = true then
    (db.trackedFiles.filter fun entry =>
        admits (evnt.filter (ascii "product")) entry.productName &&
          contains part entry.filePath).map fun entry => ⟨entry.displayName, entry.filePath⟩
  else []

/-- What a value is to be answered with. -/
def answer (addChoice : List Choice → Choice → List Choice) (evnt : AutocompleteEvent)
    (db : Caches) (name : Bytes) : CommandValue → Option (List Choice)
  | .monostate => some []
  | .text part =>
      some (if part = [] then []
        else ((evnt.matching db name part).take 100).foldl addChoice [])
  | .other => if evnt.Completes name then none else some []

/-- What an event is to be answered with. -/
def suggestions (addChoice : List Choice → Choice → List Choice) (evnt : AutocompleteEvent)
    (db : Caches) : Option (List Choice) :=
  match evnt.focusedOption with
  | none => some []
  | some option => evnt.answer addChoice db option.name option.value

/-- What the search ends with. -/
theorem search_eq (evnt : AutocompleteEvent) :
    evnt.search =
      { Search.start.settle evnt.focusedOption with
        context := AutocompletionContext.emplaceAll ⟨[]⟩
          (if evnt.options.any CompletionOption.focused then [] else evnt.read) } := by
  rw [search, Search.overEvent_eq, focusedOption, read]
  cases hany : evnt.options.any CompletionOption.focused with
  | true =>
      rw [if_pos rfl, if_pos rfl]
      cases hlast : lastFocused evnt.options with
      | none => exact absurd hlast (lastFocused_ne_none hany)
      | some option => rfl
  | false =>
      rw [lastFocused_eq_none hany, if_neg Bool.false_ne_true, if_neg Bool.false_ne_true]
      exact (Search.drill_eq rfl _).trans (Search.overChildren_eq _ _)

theorem search_focusedName (evnt : AutocompleteEvent) :
    evnt.search.focusedName = (evnt.focusedOption.map CompletionOption.name).getD [] := by
  rw [search_eq]
  cases evnt.focusedOption <;> rfl

theorem search_focusedValue (evnt : AutocompleteEvent) :
    evnt.search.focusedValue =
      (evnt.focusedOption.map CompletionOption.value).getD .monostate := by
  rw [search_eq]
  cases evnt.focusedOption <;> rfl

/-- The values are those of the parameters beside it. -/
theorem search_find (evnt : AutocompleteEvent) (name : Bytes) :
    evnt.search.context.find name = evnt.beside name := by
  rw [search_eq, AutocompletionContext.find_emplaceAll, beside, siblings]
  cases evnt.options.any CompletionOption.focused <;> rfl

theorem search_get (evnt : AutocompleteEvent) (name : Bytes) :
    evnt.search.context.get name = evnt.filter name := by
  rw [AutocompletionContext.get, search_find, filter]

theorem search_has (evnt : AutocompleteEvent) (name : Bytes) :
    evnt.search.context.has name = (evnt.beside name).isSome := by
  rw [AutocompletionContext.has, search_find]

end AutocompleteEvent

/-! ## The replies -/

section Replies

variable (addChoice : List Choice → Choice → List Choice)

theorem suggestProducts_eq (optionValue : Bytes) (entries : List ProductRow) :
    suggestProducts addChoice optionValue entries =
      (((entries.filter fun entry => contains optionValue entry.name).map fun entry =>
        (⟨entry.name, entry.name⟩ : Choice)).take 100).foldl addChoice [] := by
  rw [suggestProducts, collect_eq _ _ entries _ (by decide), ← List.map_take, List.foldl_map]

theorem suggestBuilds_eq (optionValue : Bytes) (productFilter regionFilter : Option Bytes)
    (entries : List BuildRow) :
    suggestBuilds addChoice optionValue productFilter regionFilter entries =
      ((((entries.filter fun entry => contains optionValue entry.buildName &&
          (admits productFilter entry.productName && admits regionFilter entry.region)).map
        BuildRow.buildName).eraseDups.map fun buildName =>
          (⟨buildName, buildName⟩ : Choice)).take 100).foldl addChoice [] := by
  rw [suggestBuilds, collectNew_eq _ _ _ _ entries _ (by decide), fresh_nil, ← List.map_take,
    List.foldl_map]
  rfl

theorem suggestFiles_eq (optionValue : Bytes) (productFilter : Option Bytes)
    (entries : List TrackedFile) :
    suggestFiles addChoice optionValue productFilter entries =
      (((entries.filter fun entry => admits productFilter entry.productName &&
          contains optionValue entry.filePath).map fun entry =>
        (⟨entry.displayName, entry.filePath⟩ : Choice)).take 100).foldl addChoice [] := by
  rw [suggestFiles, collect_eq _ _ entries _ (by decide), ← List.map_take, List.foldl_map]

theorem withText_text (part : Bytes) (suggest : Bytes → List Choice) :
    (withText (.text part) suggest).reply = some (if part = [] then [] else suggest part) := by
  cases part <;> rfl

/-- A text is answered with the start of what matches. -/
theorem handleAutoComplete_text (evnt : AutocompleteEvent) (db : Caches) (name part : Bytes) :
    (handleAutoComplete addChoice name (.text part) evnt.search.context db).reply =
      some (if part = [] then []
        else ((evnt.matching db name part).take 100).foldl addChoice []) := by
  rw [handleAutoComplete, AutocompleteEvent.matching, AutocompleteEvent.search_has,
    AutocompleteEvent.search_get, AutocompleteEvent.search_get]
  by_cases hproduct : name = ascii "product"
  · rw [if_pos hproduct, if_pos hproduct, withText_text, suggestProducts_eq]
  · rw [if_neg hproduct, if_neg hproduct]
    by_cases hversion : name = ascii "version"
    · rw [if_pos hversion, if_pos hversion, withText_text, suggestBuilds_eq]
    · rw [if_neg hversion, if_neg hversion]
      by_cases hfilepath : name = ascii "filepath" ∧ (evnt.beside (ascii "add")).isSome = true
      · rw [if_pos hfilepath, if_pos hfilepath, withText_text, suggestFiles_eq]
      · rw [if_neg hfilepath, if_neg hfilepath, List.take_nil, List.foldl_nil, ite_self]
        rfl

/-- A value of another kind is not looked for. -/
theorem handleAutoComplete_other (evnt : AutocompleteEvent) (db : Caches) (name : Bytes) :
    (handleAutoComplete addChoice name .other evnt.search.context db).reply =
      if evnt.Completes name then none else some [] := by
  rw [handleAutoComplete, AutocompleteEvent.search_has]
  by_cases hproduct : name = ascii "product"
  · rw [if_pos hproduct, if_pos (show evnt.Completes name from Or.inl hproduct)]
    rfl
  · rw [if_neg hproduct]
    by_cases hversion : name = ascii "version"
    · rw [if_pos hversion, if_pos (show evnt.Completes name from Or.inr (Or.inl hversion))]
      rfl
    · rw [if_neg hversion]
      by_cases hfilepath : name = ascii "filepath" ∧ (evnt.beside (ascii "add")).isSome = true
      · rw [if_pos hfilepath,
          if_pos (show evnt.Completes name from Or.inr (Or.inr hfilepath))]
        rfl
      · rw [if_neg hfilepath, if_neg (show ¬ evnt.Completes name from
          fun h => h.elim hproduct fun h => h.elim hversion hfilepath)]
        rfl

theorem not_completes_nil (evnt : AutocompleteEvent) : ¬ evnt.Completes [] := by
  intro h
  obtain h | h | ⟨h, _⟩ := h <;> exact absurd h (by decide)

theorem matching_nil (evnt : AutocompleteEvent) (db : Caches) (part : Bytes) :
    evnt.matching db [] part = [] := by
  rw [AutocompleteEvent.matching, if_neg (by decide), if_neg (by decide),
    if_neg (fun h => absurd h.1 (by decide))]

theorem answer_nil (evnt : AutocompleteEvent) (db : Caches) (value : CommandValue) :
    evnt.answer addChoice db [] value = some [] := by
  cases value with
  | monostate => rfl
  | text part =>
      rw [AutocompleteEvent.answer, matching_nil, List.take_nil, List.foldl_nil, ite_self]
  | other => rw [AutocompleteEvent.answer, if_neg (not_completes_nil evnt)]

theorem handleAutoCompleteEvent_eq (evnt : AutocompleteEvent) (db : Caches) :
    handleAutoCompleteEvent addChoice evnt db = evnt.suggestions addChoice db := by
  rw [handleAutoCompleteEvent, AutocompleteEvent.search_focusedName,
    AutocompleteEvent.search_focusedValue, AutocompleteEvent.suggestions]
  cases evnt.focusedOption with
  | none => rfl
  | some option =>
      cases option with
      | mk name value focused options =>
          cases name with
          | nil => exact (answer_nil addChoice evnt db value).symm
          | cons c rest =>
              cases value with
              | monostate => rfl
              | text part => exact handleAutoComplete_text addChoice evnt db (c :: rest) part
              | other => exact handleAutoComplete_other addChoice evnt db (c :: rest)

/-- An event is answered with the suggestions for the parameter that is typed. -/
theorem respond_suggestions (commands : List Bytes) (evnt : AutocompleteEvent) (db : Caches) :
    respond addChoice commands evnt db =
      if commands.contains evnt.command then evnt.suggestions addChoice db else some [] := by
  rw [respond, handleAutoCompleteEvent_eq]

end Replies

/-- A response keeps the first choices it is given, up to a limit. -/
def KeepsFirst (limit : Nat) (addChoice : List Choice → Choice → List Choice) : Prop :=
  ∀ choices choice,
    addChoice choices choice = if choices.length < limit then choices ++ [choice] else choices

theorem KeepsFirst.foldl_eq {limit : Nat} {addChoice : List Choice → Choice → List Choice}
    (h : KeepsFirst limit addChoice) (more : List Choice) :
    ∀ {choices : List Choice}, choices.length ≤ limit →
      more.foldl addChoice choices = choices ++ more.take (limit - choices.length) := by
  induction more with
  | nil =>
      intro choices _
      simp
  | cons choice more ih =>
      intro choices hle
      rw [List.foldl_cons, h]
      by_cases hroom : choices.length < limit
      · obtain ⟨room, hroom'⟩ : ∃ room, limit - choices.length = room + 1 :=
          ⟨limit - choices.length - 1, by omega⟩
        have hlen : (choices ++ [choice]).length = choices.length + 1 := by simp
        rw [if_pos hroom, ih (by omega), hlen, hroom', List.take_succ_cons, List.append_assoc,
          show limit - (choices.length + 1) = room by omega]
        rfl
      · rw [if_neg hroom, ih hle, show limit - choices.length = 0 by omega, List.take_zero,
          List.take_zero]

/-! ## The commands that are registered -/

/-- A parameter that is not typed now, of those a command has. -/
structure Beside (names : List Bytes) (option : CompletionOption) : Prop where
  unfocused : option.focused = false
  name_mem : option.name ∈ names

theorem any_focused_of_beside {names : List Bytes} {options : List CompletionOption}
    (h : ∀ option ∈ options, Beside names option) :
    options.any CompletionOption.focused = false := by
  refine List.any_eq_false.mpr fun option hmem => ?_
  rw [(h option hmem).unfocused]
  exact Bool.false_ne_true

/-- The parameters of a command while one of them is typed. -/
structure Typed (names : List Bytes) (name part : Bytes) (options : List CompletionOption) :
    Prop where
  splits : ∃ before after, options = before ++ .mk name (.text part) true [] :: after ∧
    (∀ option ∈ before, Beside names option) ∧ ∀ option ∈ after, Beside names option

namespace Typed

variable {names : List Bytes} {name part : Bytes} {options : List CompletionOption}

theorem any_focused (h : Typed names name part options) :
    options.any CompletionOption.focused = true := by
  obtain ⟨before, after, rfl, _, _⟩ := h.splits
  exact List.any_eq_true.mpr ⟨_, List.mem_append_right before List.mem_cons_self, rfl⟩

theorem lastFocused (h : Typed names name part options) :
    lastFocused options = some (.mk name (.text part) true []) := by
  obtain ⟨before, after, rfl, hbefore, hafter⟩ := h.splits
  rw [Frontend.lastFocused, List.filter_append, List.filter_cons_of_pos rfl,
    List.filter_eq_nil_iff.mpr (List.any_eq_false.mp (any_focused_of_beside hbefore)),
    List.filter_eq_nil_iff.mpr (List.any_eq_false.mp (any_focused_of_beside hafter))]
  rfl

theorem names_unfocused (h : Typed names name part options) :
    ∀ option ∈ options.filter (fun option => !option.focused), option.name ∈ names := by
  intro option hmem
  obtain ⟨before, after, rfl, hbefore, hafter⟩ := h.splits
  obtain ⟨hmem, hfocused⟩ := List.mem_filter.mp hmem
  obtain hmem | hmem := List.mem_append.mp hmem
  · exact (hbefore option hmem).name_mem
  · obtain rfl | hmem := List.mem_cons.mp hmem
    · exact absurd hfocused Bool.false_ne_true
    · exact (hafter option hmem).name_mem

end Typed

/-- The parameters of `/download`. -/
def downloadParameters : List Bytes :=
  [ascii "product", ascii "region", ascii "version", ascii "file"]

/-- The parameters of `/track filename add` and `/track filename remove`. -/
def trackParameters : List Bytes :=
  [ascii "product", ascii "filepath", ascii "displayname"]

/-- The event that Discord sends: its options are those of its interaction. -/
def AutocompleteEvent.sent (command : Bytes) (options : List CompletionOption) :
    AutocompleteEvent := ⟨command, options, options⟩

/-- The event for `/track filename add` or `/track filename remove`. -/
def AutocompleteEvent.track (action : Bytes) (options : List CompletionOption) :
    AutocompleteEvent :=
  .sent (ascii "track")
    [.mk (ascii "filename") .monostate false [.mk action .monostate false options]]

/-- The events for the parameters that `GetRegistrationInfo` gives a completion,
with the name of the parameter and what is typed. -/
inductive AutoCompleted : AutocompleteEvent → Bytes → Bytes → Prop where
  | download {name part : Bytes} {options : List CompletionOption}
      (auto : name = ascii "product" ∨ name = ascii "version")
      (typed : Typed downloadParameters name part options) :
      AutoCompleted (.sent (ascii "download") options) name part
  | add {part : Bytes} {options : List CompletionOption}
      (typed : Typed trackParameters (ascii "product") part options) :
      AutoCompleted (.track (ascii "add") options) (ascii "product") part
  | remove {name part : Bytes} {options : List CompletionOption}
      (auto : name = ascii "product" ∨ name = ascii "filepath")
      (typed : Typed trackParameters name part options) :
      AutoCompleted (.track (ascii "remove") options) name part

/-- What is offered for a parameter, of all rows. -/
def offered (db : Caches) (name part : Bytes) : List Choice :=
  if name = ascii "product" then
    (db.products.filter fun entry => contains part entry.name).map fun entry =>
      ⟨entry.name, entry.name⟩
  else if name = ascii "version" then
    ((db.builds.filter fun entry => contains part entry.buildName).map
      BuildRow.buildName).eraseDups.map fun buildName => ⟨buildName, buildName⟩
  else []

namespace Typed

variable {names : List Bytes} {name part : Bytes} {options : List CompletionOption}

theorem read_sent (h : Typed names name part options) (command : Bytes) :
    (AutocompleteEvent.sent command options).read = options :=
  if_pos h.any_focused

theorem siblings_sent (h : Typed names name part options) (command : Bytes) :
    (AutocompleteEvent.sent command options).siblings = [] :=
  if_pos h.any_focused

theorem read_track (h : Typed names name part options) (action : Bytes) :
    (AutocompleteEvent.track action options).read =
      .mk action .monostate false options :: options := by
  have hlevels : visited (options :: levels options) = options := by
    rw [visited, if_pos h.any_focused]
  exact congrArg (fun visited => CompletionOption.mk action .monostate false options :: visited)
    hlevels

theorem siblings_track (h : Typed names name part options) (action : Bytes) :
    (AutocompleteEvent.track action options).siblings =
      .mk action .monostate false options :: options.filter fun option => !option.focused :=
  congrArg (List.filter fun option : CompletionOption => !option.focused) (h.read_track action)

theorem focusedOption_track (h : Typed names name part options) (action : Bytes) :
    (AutocompleteEvent.track action options).focusedOption =
      some (.mk name (.text part) true []) := by
  rw [AutocompleteEvent.focusedOption, h.read_track, lastFocused_cons_of_neg rfl, h.lastFocused]

/-- The parameters are not one of the actions. -/
theorem beside_track (h : Typed names name part options) {action token : Bytes}
    (haction : action ≠ token) (hnames : token ∉ names) :
    (AutocompleteEvent.track action options).beside token = none := by
  have hskip := (named_cons token (.mk action .monostate false options)
    (options.filter fun option => !option.focused)).trans (if_neg haction)
  rw [AutocompleteEvent.beside, h.siblings_track, hskip, Option.map_eq_none_iff, named,
    List.find?_eq_none]
  intro option hmem hname
  exact hnames (of_decide_eq_true hname ▸ h.names_unfocused option hmem)

end Typed

namespace AutoCompleted

variable {evnt : AutocompleteEvent} {name part : Bytes}

theorem focusedOption (h : AutoCompleted evnt name part) :
    evnt.focusedOption = some (.mk name (.text part) true []) := by
  cases h with
  | download auto typed =>
      rw [AutocompleteEvent.focusedOption, typed.read_sent, typed.lastFocused]
  | add typed => exact typed.focusedOption_track _
  | remove auto typed => exact typed.focusedOption_track _

/-- A version has no filter. -/
theorem filter_version (h : AutoCompleted evnt name part) (hname : name = ascii "version")
    (other : Bytes) : evnt.filter other = none := by
  subst hname
  generalize hversion : ascii "version" = version at h
  cases h with
  | download auto typed =>
      rw [AutocompleteEvent.filter, AutocompleteEvent.beside, typed.siblings_sent]
      rfl
  | add typed => exact absurd hversion (by decide)
  | remove auto typed =>
      subst hversion
      exact absurd auto (by decide)

/-- A path is completed where `add` is not there. -/
theorem beside_filepath (h : AutoCompleted evnt name part) (hname : name = ascii "filepath") :
    evnt.beside (ascii "add") = none := by
  subst hname
  generalize hfilepath : ascii "filepath" = filepath at h
  cases h with
  | download auto typed =>
      subst hfilepath
      exact absurd auto (by decide)
  | add typed => exact absurd hfilepath (by decide)
  | remove auto typed => exact typed.beside_track (by decide) (by decide)

/-- No filter is there for a version, and `add` is not there for a path. -/
theorem matching_eq (h : AutoCompleted evnt name part) (db : Caches) :
    evnt.matching db name part = offered db name part := by
  rw [AutocompleteEvent.matching, offered]
  by_cases hproduct : name = ascii "product"
  · rw [if_pos hproduct, if_pos hproduct]
  · rw [if_neg hproduct, if_neg hproduct]
    by_cases hversion : name = ascii "version"
    · subst hversion
      rw [if_pos rfl, if_pos rfl, h.filter_version rfl, h.filter_version rfl]
      simp only [admits, Bool.and_true]
    · rw [if_neg hversion, if_neg hversion]
      refine if_neg fun hfilepath => ?_
      obtain ⟨rfl, hadd⟩ := hfilepath
      rw [h.beside_filepath rfl] at hadd
      exact absurd hadd Bool.false_ne_true

end AutoCompleted

/-- What the registered commands suggest: products, or versions of all products and
all regions.  They never suggest a tracked file. -/
theorem registered_respond {commands : List Bytes} {evnt : AutocompleteEvent} {name part : Bytes}
    {limit : Nat} {addChoice : List Choice → Choice → List Choice}
    (hkeeps : KeepsFirst limit addChoice) (hcommand : evnt.command ∈ commands)
    (h : AutoCompleted evnt name part) (db : Caches) :
    respond addChoice commands evnt db =
      some (if part = [] then [] else (offered db name part).take (min limit 100)) := by
  rw [respond, if_pos (List.contains_iff_mem.mpr hcommand), handleAutoCompleteEvent_eq,
    AutocompleteEvent.suggestions, h.focusedOption]
  show evnt.answer addChoice db name (.text part) = _
  rw [AutocompleteEvent.answer, h.matching_eq, hkeeps.foldl_eq _ (Nat.zero_le _), List.nil_append,
    List.length_nil, Nat.sub_zero, List.take_take]

/-- A path that is typed for `/track filename remove`. -/
def removeSample : List CompletionOption :=
  [.mk (ascii "product") (.text (ascii "wow")) false [],
    .mk (ascii "filepath") (.text (ascii "Wow")) true []]

theorem removeSample_typed :
    Typed trackParameters (ascii "filepath") (ascii "Wow") removeSample where
  splits := by
    refine ⟨[.mk (ascii "product") (.text (ascii "wow")) false []], [], rfl, ?_, by simp⟩
    intro option hmem
    obtain rfl := List.mem_singleton.mp hmem
    exact ⟨rfl, by decide⟩

/-- A response with at most 25 choices. -/
def addUpTo25 (choices : List Choice) (choice : Choice) : List Choice :=
  if choices.length < 25 then choices ++ [choice] else choices

theorem keepsFirst_addUpTo25 : KeepsFirst 25 addUpTo25 := fun _ _ => rfl

theorem registered_respond_sample :
    respond addUpTo25 [ascii "track"] (.track (ascii "remove") removeSample)
        ⟨[], [], [⟨1, ascii "wow", ascii "Wow.exe", ascii "the client"⟩]⟩ = some [] :=
  registered_respond keepsFirst_addUpTo25 (by decide) (.remove (.inr rfl) removeSample_typed) _

/-- A version of another product is suggested. -/
example :
    respond addUpTo25 [ascii "download"]
        (.sent (ascii "download")
          [.mk (ascii "product") (.text (ascii "wow")) false [],
            .mk (ascii "version") (.text (ascii "2.0")) true []])
        ⟨[], [⟨1, ascii "d3", ascii "2.0.1", [], [], ascii "eu"⟩], []⟩ =
      some [⟨ascii "2.0.1", ascii "2.0.1"⟩] := by decide

end Frontend

end Tactmon
