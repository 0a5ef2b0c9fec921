import TsCommons.Foundations.InsertionMap
import TsCommons.Foundations.InsertionSet
import TsCommons.Foundations.Text

/-!
# Content security policies

`build` writes the directives that were added and then those of the options,
each under its name.  `parse` reads a policy back, and takes the sources under
one name together.  So a policy survives if and only if no directive is given
both ways.
-/

namespace TsCommons.Web

open Foundations Text

/-- An option may be absent, set to undefined, or set to a value. -/
structure CspOptions where
  upgradeInsecureRequests : Option (Option Bool)
  blockAllMixedContent : Option (Option Bool)
  reportUri : Option (Option Text)
  reportTo : Option (Option Text)
deriving DecidableEq

def CspOptions.empty : CspOptions := ⟨none, none, none, none⟩

/-- `{ ...options, ...opts }` -/
def CspOptions.spread (options opts : CspOptions) : CspOptions where
  upgradeInsecureRequests :=
    opts.upgradeInsecureRequests.or options.upgradeInsecureRequests
  blockAllMixedContent :=
    opts.blockAllMixedContent.or options.blockAllMixedContent
  reportUri := opts.reportUri.or options.reportUri
  reportTo := opts.reportTo.or options.reportTo

structure CspBuilder where
  policy : InsertionMap Text (InsertionSet Text)
  options : CspOptions

namespace CspBuilder

def new : CspBuilder := ⟨.empty, .empty⟩

def add (builder : CspBuilder) (directive : Text) (sources : List Text) :
    CspBuilder :=
  let existing := (builder.policy.get directive).getD .empty
  { builder with
    policy := builder.policy.set directive
      (sources.foldl InsertionSet.add existing) }

def withOptions (builder : CspBuilder) (opts : CspOptions) : CspBuilder :=
  { builder with options := builder.options.spread opts }

/-- The part for a directive of the policy. -/
def part (directive : Text) (sources : InsertionSet Text) : Text :=
  let srcList := [' '].intercalate sources.elements
  if 0 < srcList.length then directive ++ ' ' :: srcList else directive

def upgradeName : Text := "upgrade-insecure-requests".toList

def blockName : Text := "block-all-mixed-content".toList

def reportUriName : Text := "report-uri".toList

def reportToName : Text := "report-to".toList

/-- The parts for the options. -/
def optionParts (options : CspOptions) : List Text :=
  (if options.upgradeInsecureRequests = some (some true) then [upgradeName]
    else []) ++
  (if options.blockAllMixedContent = some (some true) then [blockName]
    else []) ++
  (options.reportUri.join.toList.map fun uri => reportUriName ++ ' ' :: uri) ++
  options.reportTo.join.toList.map fun group => reportToName ++ ' ' :: group

def build (builder : CspBuilder) : Text :=
  [';', ' '].intercalate
    (builder.policy.entries.map (fun entry => part entry.1 entry.2) ++
      optionParts builder.options)

/-- The directives of a header. -/
def directives (header : Text) : List Text :=
  ((header.splitOn ';').map trim).filter fun directive =>
    0 < directive.length

def addDirective (builder : CspBuilder) (directive : Text) : CspBuilder :=
  match splitSpaces directive with
  | name :: sources => builder.add name sources
  | [] => builder

def parse (header : Text) : CspBuilder :=
  (directives header).foldl addDirective new

/-! ## Calls and what they have to give -/

/-- A text without white space and semicolons that is not empty. -/
def IsToken (text : Text) : Prop :=
  text ≠ [] ∧ ∀ char ∈ text, isWhiteSpace char = false ∧ char ≠ ';'

instance IsToken.decidable (text : Text) : Decidable (IsToken text) :=
  @instDecidableAnd _ _ inferInstance (List.decidableBAll _ text)

structure Token where
  text : Text
  isToken : IsToken text

/-- The options that are given in a call. -/
structure Opts where
  upgradeInsecureRequests : Option (Option Bool)
  blockAllMixedContent : Option (Option Bool)
  reportUri : Option (Option Token)
  reportTo : Option (Option Token)

def Opts.options (opts : Opts) : CspOptions where
  upgradeInsecureRequests := opts.upgradeInsecureRequests
  blockAllMixedContent := opts.blockAllMixedContent
  reportUri := opts.reportUri.map (·.map (·.text))
  reportTo := opts.reportTo.map (·.map (·.text))

inductive Call
  | add (directive : Token) (sources : List Token)
  | withOptions (opts : Opts)

def perform (builder : CspBuilder) : Call → CspBuilder
  | .add directive sources =>
      builder.add directive.text (sources.map (·.text))
  | .withOptions opts => builder.withOptions opts.options

def run (calls : List Call) : CspBuilder := calls.foldl perform new

/-- The name of each directive in a header. -/
def directiveNames (header : Text) : List Text :=
  (directives header).map fun directive =>
    (splitSpaces directive).headD []

structure RoundTrip (builder : CspBuilder) : Prop where
  namesOnce : (directiveNames builder.build).Nodup
  fixed : (parse builder.build).build = builder.build

/-- The directives that the options give. -/
def optionNames (options : CspOptions) : List Text :=
  (if options.upgradeInsecureRequests = some (some true) then [upgradeName]
    else []) ++
  (if options.blockAllMixedContent = some (some true) then [blockName]
    else []) ++
  (options.reportUri.join.toList.map fun _ => reportUriName) ++
  options.reportTo.join.toList.map fun _ => reportToName

/-- No directive of the policy is given by an option as well. -/
def GivenOnce (builder : CspBuilder) : Prop :=
  ∀ name ∈ optionNames builder.options, name ∉ builder.policy.keys

theorem all_not_has_iff_givenOnce (builder : CspBuilder) :
    ((optionNames builder.options).all fun name => !builder.policy.has name) =
      true ↔ GivenOnce builder := by
  simp [GivenOnce, InsertionMap.mem_keys_iff, InsertionMap.has]

instance GivenOnce.decidable (builder : CspBuilder) :
    Decidable (GivenOnce builder) :=
  decidable_of_iff _ (all_not_has_iff_givenOnce builder)

/-! ## The directives that are written -/

variable {builder : CspBuilder} {name : Text} {sources : List Text}
  {items : List (Text × List Text)}

/-- The directives of the options, with their sources. -/
def optionItems (options : CspOptions) : List (Text × List Text) :=
  (if options.upgradeInsecureRequests = some (some true) then
    [(upgradeName, [])] else []) ++
  (if options.blockAllMixedContent = some (some true) then [(blockName, [])]
    else []) ++
  (options.reportUri.join.toList.map fun uri => (reportUriName, [uri])) ++
  options.reportTo.join.toList.map fun group => (reportToName, [group])

/-- All directives, with their sources. -/
def allItems (builder : CspBuilder) : List (Text × List Text) :=
  builder.policy.entries.map (fun entry => (entry.1, entry.2.elements)) ++
    optionItems builder.options

def itemText (item : Text × List Text) : Text :=
  [' '].intercalate (item.1 :: item.2)

def AreTokens (items : List (Text × List Text)) : Prop :=
  ∀ item ∈ items, ∀ word ∈ item.1 :: item.2, IsToken word

theorem part_eq_itemText {directive : Text} {sources : InsertionSet Text}
    (htokens : ∀ word ∈ sources.elements, IsToken word) :
    part directive sources = itemText (directive, sources.elements) := by
  rw [part, itemText]
  cases helements : sources.elements with
  | nil => simp
  | cons word rest =>
      have hword : word ≠ [] :=
        (htokens word (helements ▸ List.mem_cons_self)).1
      have hlength : 0 < ([' '].intercalate (word :: rest)).length := by
        cases rest with
        | nil => simpa using List.length_pos_iff.mpr hword
        | cons next rest =>
            rw [List.intercalate_cons_cons, List.append_assoc,
              List.length_append]
            have hpos := List.length_pos_iff.mpr hword
            omega
      rw [if_pos hlength, List.intercalate_cons_cons, List.append_assoc,
        List.singleton_append]

theorem optionParts_eq (options : CspOptions) :
    optionParts options = (optionItems options).map itemText := by
  have huri : ∀ uri : Text, reportUriName ++ ' ' :: uri =
      itemText (reportUriName, [uri]) := fun uri => by simp [itemText]
  have hgroup : ∀ group : Text, reportToName ++ ' ' :: group =
      itemText (reportToName, [group]) := fun group => by simp [itemText]
  have hflag : ∀ flag : Text, itemText (flag, []) = flag :=
    fun flag => by simp [itemText]
  rw [optionParts, optionItems]
  simp only [List.map_append, apply_ite (List.map itemText), List.map_cons,
    List.map_nil, List.map_map, Function.comp_def, hflag, huri, hgroup]

theorem build_eq (htokens : AreTokens (allItems builder)) :
    builder.build =
      [';', ' '].intercalate ((allItems builder).map itemText) := by
  have hpolicy : builder.policy.entries.map
      (fun entry => part entry.1 entry.2) =
      builder.policy.entries.map
        (fun entry => itemText (entry.1, entry.2.elements)) := by
    apply List.map_congr_left
    intro entry hentry
    apply part_eq_itemText
    intro word hword
    exact htokens (entry.1, entry.2.elements)
      (List.mem_append_left _ (List.mem_map_of_mem hentry)) word
      (List.mem_cons_of_mem _ hword)
  rw [build, hpolicy, optionParts_eq, allItems, List.map_append, List.map_map]
  rfl

/-! ## Reading them back -/

theorem solid_itemText {item : Text × List Text}
    (htokens : ∀ word ∈ item.1 :: item.2, IsToken word) :
    Solid (itemText item) := by
  obtain ⟨first, rest⟩ := item
  rw [itemText]
  have hsolid : ∀ word, IsToken word → Solid word := fun word hword =>
    solid_of_forall hword.1 fun char hchar => (hword.2 char hchar).1
  induction rest generalizing first with
  | nil =>
      rw [List.intercalate_singleton]
      exact hsolid first (htokens first List.mem_cons_self)
  | cons next rest ih =>
      obtain ⟨hfirst, hrest⟩ := List.forall_mem_cons.mp htokens
      rw [List.intercalate_cons_cons, List.append_assoc]
      exact (hsolid first hfirst).append (ih next hrest)

theorem semicolon_not_mem_itemText {item : Text × List Text}
    (htokens : ∀ word ∈ item.1 :: item.2, IsToken word) :
    ';' ∉ itemText item := by
  obtain ⟨first, rest⟩ := item
  rw [itemText]
  induction rest generalizing first with
  | nil =>
      rw [List.intercalate_singleton]
      exact fun hmem =>
        ((htokens first List.mem_cons_self).2 ';' hmem).2 rfl
  | cons next rest ih =>
      obtain ⟨hfirst, hrest⟩ := List.forall_mem_cons.mp htokens
      rw [List.intercalate_cons_cons, List.mem_append, List.mem_append,
        not_or, not_or]
      exact ⟨⟨fun hmem => (hfirst.2 ';' hmem).2 rfl, by decide⟩,
        ih next hrest⟩

theorem splitSpaces_itemText {item : Text × List Text}
    (htokens : ∀ word ∈ item.1 :: item.2, IsToken word) :
    splitSpaces (itemText item) = item.1 :: item.2 :=
  splitSpaces_intercalate (List.cons_ne_nil _ _) fun word hword =>
    ⟨(htokens word hword).1,
      fun char hchar => ((htokens word hword).2 char hchar).1⟩

theorem directives_intercalate (htokens : AreTokens items) :
    directives ([';', ' '].intercalate (items.map itemText)) =
      items.map itemText := by
  cases items with
  | nil => rfl
  | cons item rest =>
      have hnone : ∀ text ∈ itemText item :: rest.map itemText,
          ';' ∉ text := by
        intro text htext
        rw [← List.map_cons] at htext
        obtain ⟨source, hsource, rfl⟩ := List.mem_map.mp htext
        exact semicolon_not_mem_itemText (htokens source hsource)
      have hsolid : ∀ text ∈ itemText item :: rest.map itemText,
          Solid text := by
        intro text htext
        rw [← List.map_cons] at htext
        obtain ⟨source, hsource, rfl⟩ := List.mem_map.mp htext
        exact solid_itemText (htokens source hsource)
      have htrim : (itemText item ::
          (rest.map itemText).map (' ' :: ·)).map trim =
            itemText item :: rest.map itemText := by
        obtain ⟨hitem, hrest⟩ := List.forall_mem_cons.mp hsolid
        rw [List.map_cons, hitem.trimmed, List.map_map]
        congr 1
        nth_rewrite 2 [← List.map_id (rest.map itemText)]
        apply List.map_congr_left
        intro text htext
        rw [Function.comp_apply, trim_cons_of_isWhiteSpace rfl,
          (hrest text htext).trimmed, id_eq]
      rw [List.map_cons, directives,
        splitOn_intercalate_pair (by decide) hnone, htrim,
        List.filter_eq_self]
      intro text htext
      exact decide_eq_true
        (List.length_pos_iff.mpr (hsolid text htext).ne_nil)

theorem addDirective_itemText {item : Text × List Text}
    (htokens : ∀ word ∈ item.1 :: item.2, IsToken word) :
    addDirective builder (itemText item) = builder.add item.1 item.2 := by
  rw [addDirective, splitSpaces_itemText htokens]

/-- Directives with different names are all kept, with their sources. -/
theorem items_foldl_add (htokens : AreTokens items)
    (hsources : ∀ item ∈ items, item.2.Nodup)
    (hnames : (builder.policy.keys ++ items.map Prod.fst).Nodup) :
    allItems ((items.map itemText).foldl addDirective builder) =
      builder.policy.entries.map (fun entry => (entry.1, entry.2.elements)) ++
        items ++ optionItems builder.options := by
  induction items generalizing builder with
  | nil => rw [List.map_nil, List.foldl_nil, allItems, List.append_nil]
  | cons item rest ih =>
      obtain ⟨hitem, hrest⟩ := List.forall_mem_cons.mp htokens
      obtain ⟨hsource, hothers⟩ := List.forall_mem_cons.mp hsources
      have hnew : item.1 ∉ builder.policy.keys := fun hmem =>
        (List.nodup_append.mp hnames).2.2 _ hmem _ List.mem_cons_self rfl
      have hnone : builder.policy.get item.1 = none := by
        rw [InsertionMap.mem_keys_iff] at hnew
        exact Option.not_isSome_iff_eq_none.mp hnew
      have helements : (item.2.foldl InsertionSet.add .empty).elements =
          item.2 :=
        InsertionSet.elements_foldl_add hsource
      have hentries : (builder.add item.1 item.2).policy.entries =
          builder.policy.entries ++
            [(item.1, item.2.foldl InsertionSet.add .empty)] := by
        rw [add, hnone]
        exact InsertionMap.put_of_not_mem _ hnew
      have hkeys : ((builder.add item.1 item.2).policy.keys ++
          rest.map Prod.fst).Nodup := by
        rw [InsertionMap.keys, hentries, List.map_append, List.append_assoc]
        exact hnames
      rw [List.map_cons, List.foldl_cons, addDirective_itemText hitem,
        ih hrest hothers hkeys, hentries, List.map_append]
      simp only [List.map_cons, List.map_nil, helements, List.append_assoc,
        List.singleton_append]
      rfl

/-! ## Builders that are made by calls -/

/-- Everything in the builder is a token. -/
structure Invariant (builder : CspBuilder) : Prop where
  policy : ∀ entry ∈ builder.policy.entries,
    ∀ word ∈ entry.1 :: entry.2.elements, IsToken word
  reportUri : ∀ uri ∈ builder.options.reportUri.join, IsToken uri
  reportTo : ∀ group ∈ builder.options.reportTo.join, IsToken group

theorem Invariant.add (hinv : Invariant builder) (directive : Token)
    (sources : List Token) :
    Invariant (builder.add directive.text (sources.map (·.text))) := by
  refine ⟨?_, hinv.reportUri, hinv.reportTo⟩
  intro entry hentry word hword
  have hget : (builder.add directive.text (sources.map (·.text))).policy.get
      entry.1 = some entry.2 :=
    InsertionMap.get_eq_some_iff.mpr hentry
  rw [CspBuilder.add, InsertionMap.get_set] at hget
  split at hget
  · rename_i heq
    rw [← Option.some.inj hget, List.mem_cons, ← InsertionSet.mem_def,
      InsertionSet.mem_foldl_add] at hword
    rcases hword with rfl | hnew | hold
    · exact heq ▸ directive.isToken
    · obtain ⟨source, -, rfl⟩ := List.mem_map.mp hnew
      exact source.isToken
    · cases hexisting : builder.policy.get directive.text with
      | none =>
          rw [hexisting] at hold
          exact absurd hold (InsertionSet.not_mem_empty word)
      | some existing =>
          rw [hexisting] at hold
          exact hinv.policy (directive.text, existing)
            (InsertionMap.get_eq_some_iff.mp hexisting) word
            (List.mem_cons_of_mem _ hold)
  · exact hinv.policy entry (InsertionMap.get_eq_some_iff.mp hget) word hword

theorem isToken_of_mem_join {given : Option (Option Token)}
    {held : Option (Option Text)} (hheld : ∀ text ∈ held.join, IsToken text)
    {text : Text}
    (htext : text ∈ ((given.map (·.map (·.text))).or held).join) :
    IsToken text := by
  cases given with
  | none => exact hheld text htext
  | some value =>
      cases value with
      | none => cases htext
      | some token =>
          rw [← Option.some.inj (htext : some token.text = some text)]
          exact token.isToken

theorem invariant_run (calls : List Call) : Invariant (run calls) := by
  induction calls using List.reverseRecOn with
  | nil =>
      refine ⟨List.forall_mem_nil _, ?_, ?_⟩
      · intro uri huri
        cases huri
      · intro group hgroup
        cases hgroup
  | append_singleton calls call ih =>
      rw [run, List.foldl_concat, ← run]
      cases call with
      | add directive sources => exact ih.add directive sources
      | withOptions opts =>
          exact ⟨ih.policy, fun _ => isToken_of_mem_join ih.reportUri,
            fun _ => isToken_of_mem_join ih.reportTo⟩

theorem isToken_names :
    ∀ name ∈ [upgradeName, blockName, reportUriName, reportToName],
      IsToken name := by
  decide +kernel

theorem Invariant.areTokens (hinv : Invariant builder) :
    AreTokens (allItems builder) := by
  intro item hitem
  rcases List.mem_append.mp hitem with hpolicy | hoption
  · obtain ⟨entry, hentry, rfl⟩ := List.mem_map.mp hpolicy
    exact hinv.policy entry hentry
  · have hnames := isToken_names
    simp only [List.forall_mem_cons] at hnames
    obtain ⟨hupgrade, hblock, huri, hto, -⟩ := hnames
    simp only [optionItems, List.mem_append, List.mem_map, Option.mem_toList,
      List.mem_ite_nil_right, List.mem_singleton] at hoption
    rcases hoption with ((⟨-, rfl⟩ | ⟨-, rfl⟩) | ⟨uri, hmem, rfl⟩) |
      ⟨group, hmem, rfl⟩
    · exact List.forall_mem_singleton.mpr hupgrade
    · exact List.forall_mem_singleton.mpr hblock
    · exact List.forall_mem_cons.mpr
        ⟨huri, List.forall_mem_singleton.mpr (hinv.reportUri uri hmem)⟩
    · exact List.forall_mem_cons.mpr
        ⟨hto, List.forall_mem_singleton.mpr (hinv.reportTo group hmem)⟩

/-! ## The round trip -/

theorem map_fst_optionItems (options : CspOptions) :
    (optionItems options).map Prod.fst = optionNames options := by
  rw [optionItems, optionNames]
  simp only [List.map_append, apply_ite (List.map Prod.fst), List.map_cons,
    List.map_nil, List.map_map, Function.comp_def]

theorem nodup_optionNames (options : CspOptions) :
    (optionNames options).Nodup := by
  have hall : [upgradeName, blockName, reportUriName, reportToName].Nodup := by
    decide +kernel
  have hsub : (optionNames options).Sublist
      ([upgradeName] ++ [blockName] ++ [reportUriName] ++ [reportToName]) := by
    refine ((List.Sublist.append ?_ ?_).append ?_).append ?_
    · split
      · exact .refl _
      · exact List.nil_sublist _
    · split
      · exact .refl _
      · exact List.nil_sublist _
    · cases options.reportUri.join with
      | none => exact List.nil_sublist _
      | some uri => exact .refl _
    · cases options.reportTo.join with
      | none => exact List.nil_sublist _
      | some group => exact .refl _
  exact hall.sublist hsub

theorem nodup_names_iff_givenOnce (builder : CspBuilder) :
    ((allItems builder).map Prod.fst).Nodup ↔ GivenOnce builder := by
  have hnames : (allItems builder).map Prod.fst =
      builder.policy.keys ++ optionNames builder.options := by
    rw [allItems, List.map_append, map_fst_optionItems, List.map_map]
    rfl
  rw [hnames, List.nodup_append]
  constructor
  · rintro ⟨-, -, hapart⟩ name hname hkey
    exact hapart name hkey name hname rfl
  · intro hgiven
    refine ⟨builder.policy.nodup, nodup_optionNames builder.options, ?_⟩
    rintro name hkey other hother rfl
    exact hgiven name hother hkey

theorem nodup_sources (builder : CspBuilder) :
    ∀ item ∈ allItems builder, item.2.Nodup := by
  intro item hitem
  rcases List.mem_append.mp hitem with hpolicy | hoption
  · obtain ⟨entry, -, rfl⟩ := List.mem_map.mp hpolicy
    exact entry.2.nodup
  · simp only [optionItems, List.mem_append, List.mem_map, Option.mem_toList,
      List.mem_ite_nil_right, List.mem_singleton] at hoption
    rcases hoption with ((⟨-, rfl⟩ | ⟨-, rfl⟩) | ⟨uri, -, rfl⟩) |
      ⟨group, -, rfl⟩
    · exact List.nodup_nil
    · exact List.nodup_nil
    · exact List.nodup_singleton uri
    · exact List.nodup_singleton group

theorem directiveNames_build (htokens : AreTokens (allItems builder)) :
    directiveNames builder.build = (allItems builder).map Prod.fst := by
  rw [directiveNames, build_eq htokens, directives_intercalate htokens,
    List.map_map]
  apply List.map_congr_left
  intro item hitem
  rw [Function.comp_apply, splitSpaces_itemText (htokens item hitem)]
  rfl

/-- After any calls a policy names each directive once and comes back as it was
if and only if no directive of it is given by an option as well. -/
theorem roundTrip_iff_givenOnce (calls : List Call) :
    RoundTrip (run calls) ↔ GivenOnce (run calls) := by
  have htokens := (invariant_run calls).areTokens
  rw [← nodup_names_iff_givenOnce]
  constructor
  · intro htrip
    rw [← directiveNames_build htokens]
    exact htrip.namesOnce
  · intro hnames
    refine ⟨?_, ?_⟩
    · rw [directiveNames_build htokens]
      exact hnames
    · have hkeys : (new.policy.keys ++
          (allItems (run calls)).map Prod.fst).Nodup := hnames
      have hitems : allItems (parse (run calls).build) =
          allItems (run calls) := by
        rw [parse, build_eq htokens, directives_intercalate htokens,
          items_foldl_add htokens (nodup_sources (run calls)) hkeys]
        exact List.append_nil _
      rw [build_eq (hitems ▸ htokens), hitems, ← build_eq htokens]

/-- The flag is added as a directive and set as an option. -/
def flagTwice : List Call :=
  [.add ⟨upgradeName, by decide +kernel⟩ [],
    .withOptions ⟨some (some true), none, none, none⟩]

/-- The header has the directive twice, what is parsed has it once. -/
theorem not_roundTrip_flagTwice :
    (run flagTwice).build = upgradeName ++ "; ".toList ++ upgradeName ∧
    (parse (run flagTwice).build).build = upgradeName ∧
    ¬ RoundTrip (run flagTwice) := by
  have hbuild : (run flagTwice).build =
      upgradeName ++ "; ".toList ++ upgradeName := by
    decide +kernel
  have hparsed : (parse (run flagTwice).build).build = upgradeName := by
    decide +kernel
  refine ⟨hbuild, hparsed, fun htrip => ?_⟩
  have hfixed := htrip.fixed
  rw [hparsed, hbuild] at hfixed
  exact absurd hfixed (by decide +kernel)

end CspBuilder

end TsCommons.Web
