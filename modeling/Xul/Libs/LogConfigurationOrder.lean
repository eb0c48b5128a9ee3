import Xul.Foundation.KeyedEntries
import Xul.Libs.PropertiesLogConfigurator

/-!
# The order of lines in a log configuration

A line that lists the filters makes the name of each its type, and a line for a filter sets its type
too: of these two the later one counts.  Nothing else is written by two lines with different keys.
So the order of the lines does not matter just if the types that are given to listed filters are
those that their names stand for (`orderIndependent_iff`).
-/

set_option autoImplicit false

namespace Xul

open Foundation

namespace PropertiesLogConfigurator

/-! ## Keys -/

/-- The keys that have a meaning. -/
inductive HasForm : List Bytes → Prop
  | filters : HasForm [ascii "filters"]
  | filter {name : Bytes} (named : name ≠ []) : HasForm [ascii "filter", name]
  | parameter {name parameter : Bytes} (named : name ≠ []) (parameterNamed : parameter ≠ []) :
      HasForm [ascii "filter", name, parameter]
  | logger {name : Bytes} (named : name ≠ []) : HasForm [ascii "logger", name]
  | serviceLevel : HasForm [ascii "service", ascii "level"]

@[simp] theorem filter_ne_filters : ascii "filter" ≠ ascii "filters" := by decide

@[simp] theorem logger_ne_filters : ascii "logger" ≠ ascii "filters" := by decide

@[simp] theorem service_ne_filters : ascii "service" ≠ ascii "filters" := by decide

@[simp] theorem logger_ne_filter : ascii "logger" ≠ ascii "filter" := by decide

@[simp] theorem service_ne_filter : ascii "service" ≠ ascii "filter" := by decide

@[simp] theorem service_ne_logger : ascii "service" ≠ ascii "logger" := by decide

theorem name_ne_nil_of_hasForm {keys : List Bytes} {name : Bytes} (form : HasForm keys)
    (isFilter : keys = [ascii "filter", name]) : name ≠ [] := by
  cases form with
  | filters => simp at isFilter
  | filter named =>
      simp only [List.cons.injEq, true_and, and_true] at isFilter
      exact isFilter ▸ named
  | parameter => simp at isFilter
  | logger => simp at isFilter
  | serviceLevel => simp at isFilter

section

variable {name parameter : Bytes} (config : Configuration) (value : Bytes)

theorem configureKeys_filters :
    configureKeys config ([ascii "filters"], value) = addFilters value config := by
  simp [configureKeys]

theorem configureKeys_filter (named : name ≠ []) :
    configureKeys config ([ascii "filter", name], value) = config.setProp name [] value := by
  simp [configureKeys, configureFilter, named]

theorem configureKeys_parameter (named : name ≠ []) (parameterNamed : parameter ≠ []) :
    configureKeys config ([ascii "filter", name, parameter], value) =
      config.setProp name parameter value := by
  simp [configureKeys, configureFilter, named, parameterNamed]

theorem configureKeys_logger (named : name ≠ []) :
    configureKeys config ([ascii "logger", name], value) =
      { config with loggersLevels := config.loggersLevels.set name value } := by
  simp [configureKeys, configureLogger, named]

theorem configureKeys_serviceLevel :
    configureKeys config ([ascii "service", ascii "level"], value) =
      { config with
        serviceLevels := config.serviceLevels ++ (tryParseLevel value).toList } := by
  simp only [configureKeys, service_ne_filters, service_ne_filter, service_ne_logger, if_false,
    if_true, configureService]
  cases tryParseLevel value with
  | none => rw [Option.toList_none, List.append_nil]
  | some level => rfl

end

/-! ## What a line writes -/

namespace Configuration

/-- `filters_props[name][parameter]`, if it is there. -/
def cell (name parameter : Bytes) (config : Configuration) : Option Bytes :=
  (config.props name).find parameter

variable (config : Configuration) (name parameter value : Bytes)

@[simp]
theorem filtersNames_setProp :
    (config.setProp name parameter value).filtersNames = config.filtersNames := rfl

@[simp]
theorem loggersLevels_setProp :
    (config.setProp name parameter value).loggersLevels = config.loggersLevels := rfl

@[simp]
theorem serviceLevels_setProp :
    (config.setProp name parameter value).serviceLevels = config.serviceLevels := rfl

theorem cell_setProp (sought soughtParameter : Bytes) :
    (config.setProp name parameter value).cell sought soughtParameter =
      if sought = name ∧ soughtParameter = parameter then some value
      else config.cell sought soughtParameter := by
  rw [cell, props, setProp, setProps, SortedMap.find_set]
  by_cases same : sought = name
  · rw [if_pos same, Option.getD_some, SortedMap.find_set, cell, same]
    by_cases sameParameter : soughtParameter = parameter
    · rw [if_pos sameParameter, if_pos ⟨rfl, sameParameter⟩]
    · rw [if_neg sameParameter, if_neg fun both => sameParameter both.2]
  · rw [if_neg same, if_neg fun both => same both.1]
    rfl

end Configuration

section

variable (value : Bytes) (config : Configuration)

/-- The names and types of filters are all that is written. -/
theorem get_addFilters {α : Type*} (get : Configuration → α)
    (frame : ∀ config name, get (config.setProp name [] name) = get config) :
    get (addFilters value config) =
      get { config with
        filtersNames := config.filtersNames.map trimSpaces ++ listedNames value } := by
  rw [addFilters]
  refine List.foldlRecOn (motive := fun reached => get reached = _) _ _ rfl ?_
  intro reached same name _
  rw [frame, same]

@[simp]
theorem filtersNames_addFilters :
    (addFilters value config).filtersNames =
      config.filtersNames.map trimSpaces ++ listedNames value :=
  get_addFilters value config (·.filtersNames) fun _ _ => rfl

@[simp]
theorem loggersLevels_addFilters :
    (addFilters value config).loggersLevels = config.loggersLevels :=
  get_addFilters value config (·.loggersLevels) fun _ _ => rfl

@[simp]
theorem serviceLevels_addFilters :
    (addFilters value config).serviceLevels = config.serviceLevels :=
  get_addFilters value config (·.serviceLevels) fun _ _ => rfl

theorem cell_addFilters (name parameter : Bytes) :
    (addFilters value config).cell name parameter =
      if parameter = [] ∧ name ∈ config.filtersNames.map trimSpaces ++ listedNames value then
        some name
      else config.cell name parameter := by
  have set : ∀ (names : List Bytes) (config : Configuration),
      (names.foldl (fun config name => config.setProp name [] name) config).cell name parameter =
        if parameter = [] ∧ name ∈ names then some name else config.cell name parameter := by
    intro names
    induction names with
    | nil => simp
    | cons first names ih =>
        intro config
        rw [List.foldl_cons, ih, config.cell_setProp]
        by_cases isType : parameter = []
        · by_cases isFirst : name = first <;> simp [isType, isFirst]
        · simp [isType]
  exact set _ _

end

/-! ## What depends on one line -/

section

variable {entries other : List (List Bytes × Bytes)} (forms : ∀ entry ∈ entries, HasForm entry.1)

include forms

theorem owned_filtersNames :
    Owned Prod.fst [ascii "filters"] configureKeys (·.filtersNames)
      (fun entry names => names.map trimSpaces ++ listedNames entry.2) entries := by
  rintro ⟨keys, value⟩ member config
  cases forms _ member with
  | filters => simp [configureKeys_filters]
  | filter named => simp [configureKeys_filter _ _ named]
  | parameter named parameterNamed => simp [configureKeys_parameter _ _ named parameterNamed]
  | logger named => simp [configureKeys_logger _ _ named]
  | serviceLevel => simp [configureKeys_serviceLevel]

theorem owned_serviceLevels :
    Owned Prod.fst [ascii "service", ascii "level"] configureKeys (·.serviceLevels)
      (fun entry levels => levels ++ (tryParseLevel entry.2).toList) entries := by
  rintro ⟨keys, value⟩ member config
  cases forms _ member with
  | filters => simp [configureKeys_filters]
  | filter named => simp [configureKeys_filter _ _ named, service_ne_filter.symm]
  | parameter named parameterNamed => simp [configureKeys_parameter _ _ named parameterNamed]
  | logger named => simp [configureKeys_logger _ _ named, service_ne_logger.symm]
  | serviceLevel => simp [configureKeys_serviceLevel]

theorem owned_loggersLevels (name : Bytes) :
    Owned Prod.fst [ascii "logger", name] configureKeys (·.loggersLevels.find name)
      (fun entry _ => some entry.2) entries := by
  rintro ⟨keys, value⟩ member config
  cases forms _ member with
  | filters => simp [configureKeys_filters]
  | filter named => simp [configureKeys_filter _ _ named, logger_ne_filter.symm]
  | parameter named parameterNamed => simp [configureKeys_parameter _ _ named parameterNamed]
  | logger named => simp [configureKeys_logger _ _ named, SortedMap.find_set, eq_comm]
  | serviceLevel => simp [configureKeys_serviceLevel]

theorem owned_parameter (name : Bytes) {parameter : Bytes} (isParameter : parameter ≠ []) :
    Owned Prod.fst [ascii "filter", name, parameter] configureKeys (·.cell name parameter)
      (fun entry _ => some entry.2) entries := by
  rintro ⟨keys, value⟩ member config
  cases forms _ member with
  | filters => simp [configureKeys_filters, cell_addFilters, isParameter]
  | filter named => simp [configureKeys_filter _ _ named, Configuration.cell_setProp, isParameter]
  | parameter named parameterNamed =>
      simp [configureKeys_parameter _ _ named parameterNamed, Configuration.cell_setProp, eq_comm]
  | logger named => simp [configureKeys_logger _ _ named, Configuration.cell, Configuration.props]
  | serviceLevel => simp [configureKeys_serviceLevel, Configuration.cell, Configuration.props]

/-- Behind the names of filters, only the line for a filter changes its type. -/
theorem owned_type (name : Bytes) (later : ∀ entry ∈ entries, entry.1 ≠ [ascii "filters"]) :
    Owned Prod.fst [ascii "filter", name] configureKeys (·.cell name [])
      (fun entry _ => some entry.2) entries := by
  rintro ⟨keys, value⟩ member config
  have notFilters := later _ member
  cases forms _ member with
  | filters => exact absurd rfl notFilters
  | filter named => simp [configureKeys_filter _ _ named, Configuration.cell_setProp, eq_comm]
  | parameter named parameterNamed =>
      simp [configureKeys_parameter _ _ named parameterNamed, Configuration.cell_setProp,
        parameterNamed.symm]
  | logger named => simp [configureKeys_logger _ _ named, Configuration.cell, Configuration.props]
  | serviceLevel => simp [configureKeys_serviceLevel, Configuration.cell, Configuration.props]

end

/-! ## Filters that are added -/

section

variable {config other : Configuration} {name : Bytes}

theorem type_addedFilter :
    (addedFilter config name).map Prod.fst = filterType ((config.cell name []).getD []) := by
  rw [addedFilter, Option.map_map]
  exact Option.map_id_apply

theorem addedFilter_congr
    (types : filterType ((config.cell name []).getD []) =
      filterType ((other.cell name []).getD []))
    (parameters : ∀ parameter, parameter ≠ [] →
      config.cell name parameter = other.cell name parameter) :
    addedFilter config name = addedFilter other name := by
  have erased : (config.props name).erase [] = (other.props name).erase [] := by
    refine SortedMap.ext_of_find ?_
    intro parameter
    rw [SortedMap.find_erase, SortedMap.find_erase]
    split
    · rfl
    · next isParameter => exact parameters parameter isParameter
  have others : ∀ props : StringDict,
      (props.entries.filter fun entry => entry.1 ≠ []) = (props.erase []).entries :=
    fun props => List.filter_congr fun entry _ => decide_eq_decide.mpr Iff.rfl
  rw [Configuration.cell, Configuration.cell] at types
  rw [addedFilter, addedFilter, types, others, others, erased]

end

/-! ## The order of the lines -/

/-- What is kept of a file with these keys and values. -/
def configurationOf (entries : List (List Bytes × Bytes)) : Configuration :=
  entries.foldl configureKeys Configuration.empty

/-- The types that are given to listed filters are those that their names stand for. -/
def Agreeing (entries : List (List Bytes × Bytes)) : Prop :=
  ∀ value name type, ([ascii "filters"], value) ∈ entries → name ∈ listedNames value →
    ([ascii "filter", name], type) ∈ entries → filterType type = filterType name

section

variable {entries other : List (List Bytes × Bytes)} {value name : Bytes}
  (forms : ∀ entry ∈ entries, HasForm entry.1) (distinct : (entries.map Prod.fst).Nodup)

include forms

theorem exists_listed (listed : name ∈ (configurationOf entries).filtersNames) :
    ∃ value, ([ascii "filters"], value) ∈ entries := by
  by_contra absent
  have noFilters : ∀ entry ∈ entries, entry.1 ≠ [ascii "filters"] := by
    rintro ⟨_, value⟩ member rfl
    exact absent ⟨value, member⟩
  have none : (configurationOf entries).filtersNames = [] :=
    get_foldl_of_absent (owned_filtersNames forms) noFilters _
  rw [none] at listed
  cases listed

include distinct

theorem filtersNames_configurationOf (listed : ([ascii "filters"], value) ∈ entries) :
    (configurationOf entries).filtersNames = listedNames value := by
  have perm := (List.perm_cons_erase listed).symm
  have others := key_ne_of_nodup ((perm.map Prod.fst).nodup_iff.mpr distinct)
  have owned := owned_filtersNames forms
  calc (configurationOf entries).filtersNames
      = (configurationOf (_ :: entries.erase ([ascii "filters"], value))).filtersNames :=
        (get_foldl_perm owned distinct perm _).symm
    _ = (configureKeys Configuration.empty ([ascii "filters"], value)).filtersNames :=
        get_foldl_of_absent (owned.of_subset List.erase_subset) others _
    _ = listedNames value := by
        rw [configureKeys_filters, filtersNames_addFilters]
        rfl

/-- **A listed filter** is of the type that its name stands for, whatever is read when. -/
theorem filterType_of_agreeing (agreeing : Agreeing entries)
    (listed : name ∈ (configurationOf entries).filtersNames) :
    filterType (((configurationOf entries).cell name []).getD []) = filterType name := by
  obtain ⟨value, isListed⟩ := exists_listed forms listed
  rw [filtersNames_configurationOf forms distinct isListed] at listed
  obtain ⟨before, after, rfl⟩ := List.append_of_mem isListed
  have later : ∀ entry ∈ after, entry.1 ≠ [ascii "filters"] := by
    rw [List.map_append] at distinct
    exact key_ne_of_nodup (List.nodup_append.mp distinct).2.1
  have owned := owned_type (fun entry member => forms entry (by simp [member])) name later
  rw [configurationOf, List.foldl_append, List.foldl_cons, configureKeys_filters,
    get_foldl_eq owned, cell_addFilters, if_pos ⟨rfl, List.mem_append_right _ listed⟩]
  refine List.foldlRecOn
      (motive := fun type : Option Bytes => filterType (type.getD []) = filterType name)
    _ _ rfl ?_
  intro type same entry member
  split
  · next isName =>
      refine agreeing value name entry.2 isListed listed ?_
      rw [← isName]
      simp [member]
  · exact same

theorem finish_eq_of_perm (agreeing : Agreeing entries) (perm : other.Perm entries) :
    finish (configurationOf other) = finish (configurationOf entries) := by
  have levels : (configurationOf other).serviceLevels = (configurationOf entries).serviceLevels :=
    get_foldl_perm (owned_serviceLevels forms) distinct perm _
  have loggers : (configurationOf other).loggersLevels =
      (configurationOf entries).loggersLevels := by
    refine SortedMap.ext_of_find ?_
    intro name
    exact get_foldl_perm (owned_loggersLevels forms name) distinct perm _
  have names : (configurationOf other).filtersNames = (configurationOf entries).filtersNames :=
    get_foldl_perm (owned_filtersNames forms) distinct perm _
  have filters : (configurationOf other).filtersNames.filterMap
        (addedFilter (configurationOf other)) =
      (configurationOf entries).filtersNames.filterMap (addedFilter (configurationOf entries)) := by
    rw [names]
    refine List.filterMap_congr ?_
    intro name listed
    refine addedFilter_congr ?_ ?_
    · rw [filterType_of_agreeing forms distinct agreeing listed]
      refine filterType_of_agreeing ?_ ?_ ?_ (names ▸ listed)
      · exact fun entry member => forms entry (perm.subset member)
      · exact (perm.map Prod.fst).nodup_iff.mpr distinct
      · exact fun value name type listed inside typed =>
          agreeing value name type (perm.subset listed) inside (perm.subset typed)
    · intro parameter isParameter
      exact get_foldl_perm (owned_parameter forms name isParameter) distinct perm _
  rw [finish, finish, levels, loggers, filters]

end

/-- Where a filter is listed in front of its line and behind it with the same outcome, its type is
the one that its name stands for. -/
theorem filterType_eq_of_finish_eq {config : Configuration} {value name type : Bytes}
    (inside : name ∈ listedNames value)
    (same : finish (addFilters value (config.setProp name [] type)) =
      finish ((addFilters value config).setProp name [] type)) :
    filterType type = filterType name := by
  have filters := congrArg Outcome.filters same
  simp only [finish, filtersNames_addFilters, Configuration.filtersNames_setProp] at filters
  have listed := List.mem_append_right (config.filtersNames.map trimSpaces) inside
  have made := eq_of_filterMap_eq listed ?others filters
  case others =>
    intro other isListed apart
    refine addedFilter_congr ?_ ?_
    · rw [cell_addFilters, Configuration.filtersNames_setProp, if_pos ⟨rfl, isListed⟩,
        Configuration.cell_setProp, if_neg fun both => apart both.1, cell_addFilters,
        if_pos ⟨rfl, isListed⟩]
    · intro parameter isParameter
      simp [cell_addFilters, Configuration.cell_setProp, isParameter]
  replace made := congrArg (Option.map Prod.fst) made
  rw [type_addedFilter, type_addedFilter, cell_addFilters, Configuration.filtersNames_setProp,
    if_pos ⟨rfl, listed⟩, Configuration.cell_setProp, if_pos ⟨rfl, rfl⟩] at made
  exact made.symm

/-- Every file with the same lines, in another order, sets the service up in the same way. -/
def OrderIndependent (contents : Bytes) : Prop :=
  ∀ other, (linesOf other).Perm (linesOf contents) → configure other = configure contents

section

variable {contents : Bytes} (few : (linesOf contents).length ≤ 2000)

include few

theorem finish_of_orderIndependent (independent : OrderIndependent contents)
    {entries : List (List Bytes × Bytes)} (perm : entries.Perm (entriesOf contents)) :
    finish (configurationOf entries) = configure contents := by
  rw [entriesOf, linesOf, List.filterMap_map] at perm
  obtain ⟨lines, isOrder, rfl⟩ := exists_perm_filterMap_eq perm
  obtain ⟨other, isOther⟩ := exists_linesOf fun line member =>
    readable_of_readLines (isOrder.subset member)
  have linesPerm : (linesOf other).Perm (linesOf contents) := isOther ▸ isOrder.map trimSpaces
  rw [← independent other linesPerm, configure_eq (linesPerm.length_eq ▸ few), entriesOf, isOther,
    List.filterMap_map]
  rfl

theorem agreeing_of_orderIndependent (forms : ∀ entry ∈ entriesOf contents, HasForm entry.1)
    (independent : OrderIndependent contents) : Agreeing (entriesOf contents) := by
  intro value name type isListed inside isTyped
  have named : name ≠ [] := name_ne_nil_of_hasForm (forms _ isTyped) rfl
  let listing : List Bytes × Bytes := ([ascii "filters"], value)
  let typing : List Bytes × Bytes := ([ascii "filter", name], type)
  have apart : typing ≠ listing := by
    intro same
    have keys := congrArg (fun entry => entry.1.length) same
    cases keys
  obtain ⟨rest, isRest⟩ : ∃ rest, (listing :: typing :: rest).Perm (entriesOf contents) := by
    have others : typing ∈ (entriesOf contents).erase listing :=
      (List.mem_erase_of_ne apart).mpr isTyped
    exact ⟨_, ((List.perm_cons_erase isListed).trans
      ((List.perm_cons_erase others).cons _)).symm⟩
  have listedFirst := finish_of_orderIndependent few independent
    ((@List.perm_append_comm _ rest [listing, typing]).trans isRest)
  have listedLast := finish_of_orderIndependent few independent
    ((@List.perm_append_comm _ rest [typing, listing]).trans
      ((List.Perm.swap ..).trans isRest))
  have same := listedLast.trans listedFirst.symm
  simp only [configurationOf, List.foldl_append, List.foldl_cons, List.foldl_nil, listing, typing,
    configureKeys_filters, configureKeys_filter _ _ named] at same
  exact filterType_eq_of_finish_eq inside same

end

/-- **The order of the lines** does not matter if and only if the types of the listed filters are
those that their names stand for. -/
theorem orderIndependent_iff {contents : Bytes} (few : (linesOf contents).length ≤ 2000)
    (distinct : ((entriesOf contents).map Prod.fst).Nodup)
    (forms : ∀ entry ∈ entriesOf contents, HasForm entry.1) :
    OrderIndependent contents ↔ Agreeing (entriesOf contents) := by
  constructor
  · exact agreeing_of_orderIndependent few forms
  · intro agreeing other perm
    rw [configure_eq few, configure_eq (perm.length_eq ▸ few)]
    exact finish_eq_of_perm forms distinct agreeing (perm.filterMap entryOf)

theorem entriesOf_file :
    entriesOf (ascii "filters=file\nfilter.file=file\nlogger.net=DEBUG\n") =
      [([ascii "filters"], ascii "file"), ([ascii "filter", ascii "file"], ascii "file"),
        ([ascii "logger", ascii "net"], ascii "DEBUG")] := by
  decide

theorem orderIndependent_file :
    OrderIndependent (ascii "filters=file\nfilter.file=file\nlogger.net=DEBUG\n") := by
  refine (orderIndependent_iff ?_ ?_ ?_).mpr ?_
  · decide
  · decide
  · rw [entriesOf_file]
    intro entry member
    simp only [List.mem_cons, List.not_mem_nil, or_false] at member
    rcases member with rfl | rfl | rfl
    · exact .filters
    · exact .filter (by decide)
    · exact .logger (by decide)
  · rw [entriesOf_file]
    intro value name type listed inside typed
    simp [logger_ne_filter.symm] at typed
    rw [typed.1, typed.2]

/-- A filter that is listed behind the line that sets its type is of another. -/
theorem not_orderIndependent_renamed :
    (linesOf (ascii "filters=a\nfilter.a=console\n")).length ≤ 2000 ∧
      ((entriesOf (ascii "filters=a\nfilter.a=console\n")).map Prod.fst).Nodup ∧
      (∀ entry ∈ entriesOf (ascii "filters=a\nfilter.a=console\n"), HasForm entry.1) ∧
      ¬ OrderIndependent (ascii "filters=a\nfilter.a=console\n") := by
  have entries : entriesOf (ascii "filters=a\nfilter.a=console\n") =
      [([ascii "filters"], ascii "a"), ([ascii "filter", ascii "a"], ascii "console")] := by
    decide
  refine ⟨by decide, by decide, ?_, ?_⟩
  · rw [entries]
    intro entry member
    simp only [List.mem_cons, List.not_mem_nil, or_false] at member
    rcases member with rfl | rfl
    · exact .filters
    · exact .filter (by decide)
  · intro independent
    have same := independent (ascii "filter.a=console\nfilters=a\n") (by decide)
    have numbers := congrArg (fun outcome => outcome.filters.length) same
    revert numbers
    decide

end PropertiesLogConfigurator

end Xul
