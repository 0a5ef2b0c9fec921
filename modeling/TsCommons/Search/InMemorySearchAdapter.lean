import Mathlib.Order.Defs.LinearOrder
import TsCommons.Foundations.Comparisons
import TsCommons.Foundations.InsertionMap
import TsCommons.Foundations.Slices
import TsCommons.Foundations.Text

/-!
# The in-memory search adapter

The matching documents of an index are sorted by the clauses of a query and
given out in pages.  Every value is compared as a text, also a number, so the
hits are in the order of the numbers only where the order of their texts is.
-/

namespace TsCommons.Search

open Foundations
open Std (TransCmp OrientedCmp ReflCmp)

/-- What the language does with texts: their order in its locale, their lower
case, and the text of a number.  Texts of different numbers compare
different. -/
structure Locale (ν : Type*) where
  localeCompare : Text → Text → Ordering
  transCmp : TransCmp localeCompare
  toLowerCase : Text → Text
  numberText : ν → Text
  eq_of_compare : ∀ first second,
    localeCompare (numberText first) (numberText second) = .eq →
      first = second

/-- A value of a document, where objects and the like are not told apart. -/
inductive FieldValue (ν : Type*)
  | string (text : Text)
  | number (value : ν)
  | other
deriving DecidableEq

structure SearchDocument (ν : Type*) where
  fields : InsertionMap Text (FieldValue ν)
  id : Text
  get_id : fields.get ['i', 'd'] = some (.string id)
deriving DecidableEq

inductive SortOrder
  | asc
  | desc
deriving DecidableEq

structure SortField where
  field : Text
  order : SortOrder
deriving DecidableEq

structure FacetFilter where
  field : Text
  value : Text
deriving DecidableEq

structure SearchQuery where
  q : Text
  page : Option ℕ
  hitsPerPage : Option ℕ
  filters : Option (List FacetFilter)
  facets : Option (List Text)
  sort : Option (List SortField)
deriving DecidableEq

structure FacetBucket where
  value : Text
  count : ℕ
deriving DecidableEq

structure FacetResult where
  field : Text
  buckets : List FacetBucket
deriving DecidableEq

structure SearchResult (ν : Type*) where
  hits : List (SearchDocument ν)
  total : ℕ
  page : ℕ
  hitsPerPage : ℕ
  facets : Option (List FacetResult)
deriving DecidableEq

structure SearchIndexNotFoundError where
  index : Text
deriving DecidableEq

structure InMemorySearchAdapter (ν : Type*) where
  indices : InsertionMap Text (InsertionMap Text (SearchDocument ν))
deriving DecidableEq

variable {ν : Type*}

/-! ## Matching documents -/

/-- The part stands somewhere in the text. -/
def includes (text part : Text) : Bool := text.tails.any part.isPrefixOf

def FieldValue.includes (locale : Locale ν) (lower : Text) :
    FieldValue ν → Bool
  | .string text => Search.includes (locale.toLowerCase text) lower
  | _ => false

def filterByQuery (locale : Locale ν) (docs : List (SearchDocument ν))
    (q : Text) : List (SearchDocument ν) :=
  if q = [] ∨ q = ['*'] then docs
  else
    let lower := locale.toLowerCase q
    docs.filter fun doc => doc.fields.values.any (·.includes locale lower)

def FieldValue.isText (text : Text) : FieldValue ν → Bool
  | .string value => decide (value = text)
  | _ => false

def applyFilters (docs : List (SearchDocument ν))
    (filters : List FacetFilter) : List (SearchDocument ν) :=
  if filters.length = 0 then docs
  else
    docs.filter fun doc =>
      filters.all fun filter =>
        (doc.fields.get filter.field).any (·.isText filter.value)

def countFacet (counts : InsertionMap Text ℕ) (value : Option (FieldValue ν)) :
    InsertionMap Text ℕ :=
  match value with
  | some (.string text) => counts.set text ((counts.get text).getD 0 + 1)
  | _ => counts

def computeFacets (docs : List (SearchDocument ν)) (facetFields : List Text) :
    List FacetResult :=
  facetFields.map fun field =>
    let counts := docs.foldl
      (fun counts doc => countFacet counts (doc.fields.get field)) .empty
    { field
      buckets := counts.entries.map fun entry => ⟨entry.1, entry.2⟩ }

/-! ## Sorting and paging -/

def sortText (locale : Locale ν) : Option (FieldValue ν) → Text
  | some (.string text) => text
  | some (.number value) => locale.numberText value
  | _ => []

def SortOrder.apply {α : Type*} (order : SortOrder)
    (cmp : α → α → Ordering) (first second : α) : Ordering :=
  match order with
  | .asc => cmp first second
  | .desc => cmp second first

def compareByField (locale : Locale ν) (clause : SortField)
    (a b : SearchDocument ν) : Ordering :=
  clause.order.apply locale.localeCompare
    (sortText locale (a.fields.get clause.field))
    (sortText locale (b.fields.get clause.field))

def applySort (locale : Locale ν) (docs : List (SearchDocument ν))
    (sort : List SortField) : List (SearchDocument ν) :=
  if sort.length = 0 then docs
  else sortedBy (compareAll (compareByField locale) sort) docs

def paginate (docs : List (SearchDocument ν)) (page hitsPerPage : ℕ) :
    List (SearchDocument ν) :=
  docs.extract (page * hitsPerPage) ((page + 1) * hitsPerPage)

/-- The documents of an index that match a query. -/
def matching (locale : Locale ν)
    (store : InsertionMap Text (SearchDocument ν)) (query : SearchQuery) :
    List (SearchDocument ν) :=
  applyFilters (filterByQuery locale store.values query.q)
    (query.filters.getD [])

def InMemorySearchAdapter.search (locale : Locale ν)
    (adapter : InMemorySearchAdapter ν) (index : Text) (query : SearchQuery) :
    Except SearchIndexNotFoundError (SearchResult ν) :=
  match adapter.indices.get index with
  | none => .error ⟨index⟩
  | some store =>
      let page := query.page.getD 0
      let hitsPerPage := query.hitsPerPage.getD 20
      let filtered := matching locale store query
      let sorted := applySort locale filtered (query.sort.getD [])
      .ok
        { hits := paginate sorted page hitsPerPage
          total := sorted.length
          page
          hitsPerPage
          facets := query.facets.map (computeFacets filtered) }

/-! ## The pages of a query -/

/-- The page of a query. -/
def InMemorySearchAdapter.page (locale : Locale ν)
    (adapter : InMemorySearchAdapter ν) (index : Text) (query : SearchQuery)
    (page hitsPerPage : ℕ) :
    Except SearchIndexNotFoundError (SearchResult ν) :=
  adapter.search locale index
    { query with page := some page, hitsPerPage := some hitsPerPage }

def hitsOf {ε : Type*} : Except ε (SearchResult ν) → List (SearchDocument ν)
  | .ok result => result.hits
  | .error _ => []

/-- The pages of a query give its hits one after another. -/
structure PagesGive (locale : Locale ν) (adapter : InMemorySearchAdapter ν)
    (index : Text) (query : SearchQuery) (hits : List (SearchDocument ν)) :
    Prop where
  page : ∀ page hitsPerPage, ∃ result,
    adapter.page locale index query page hitsPerPage = .ok result ∧
      result.total = hits.length ∧ result.hits.length ≤ hitsPerPage
  flatMap_pages : ∀ hitsPerPage, 0 < hitsPerPage → ∀ count,
    hits.length ≤ count * hitsPerPage →
      ((List.range count).flatMap fun page =>
        hitsOf (adapter.page locale index query page hitsPerPage)) = hits

section Pages

variable {locale : Locale ν} {adapter : InMemorySearchAdapter ν}
  {index : Text} {query : SearchQuery}
  {store : InsertionMap Text (SearchDocument ν)}

def sortedHits (locale : Locale ν)
    (store : InsertionMap Text (SearchDocument ν)) (query : SearchQuery) :
    List (SearchDocument ν) :=
  applySort locale (matching locale store query) (query.sort.getD [])

theorem page_eq (locale : Locale ν)
    (hstore : adapter.indices.get index = some store) (query : SearchQuery)
    (page hitsPerPage : ℕ) :
    ∃ result, adapter.page locale index query page hitsPerPage = .ok result ∧
      result.total = (sortedHits locale store query).length ∧
      result.hits =
        (sortedHits locale store query).extract (page * hitsPerPage)
          ((page + 1) * hitsPerPage) := by
  rw [InMemorySearchAdapter.page, InMemorySearchAdapter.search, hstore]
  exact ⟨_, rfl, rfl, rfl⟩

theorem flatMap_pages (hstore : adapter.indices.get index = some store)
    {hitsPerPage count : ℕ}
    (hcount : (sortedHits locale store query).length ≤ count * hitsPerPage) :
    ((List.range count).flatMap fun page =>
        hitsOf (adapter.page locale index query page hitsPerPage)) =
      sortedHits locale store query := by
  have hbounds : Monotone fun page => page * hitsPerPage :=
    fun _ _ hle => Nat.mul_le_mul_right hitsPerPage hle
  have hpage : ∀ page, hitsOf
      (adapter.page locale index query page hitsPerPage) =
        (sortedHits locale store query).extract (page * hitsPerPage)
          ((page + 1) * hitsPerPage) := by
    intro page
    obtain ⟨result, hresult, -, hhits⟩ :=
      page_eq locale hstore query page hitsPerPage
    rw [hresult, hitsOf, hhits]
  have hslices : (slices (fun page => page * hitsPerPage) count
      (sortedHits locale store query)).flatten =
        (sortedHits locale store query).extract (0 * hitsPerPage)
          (count * hitsPerPage) :=
    flatten_slices hbounds count
  rw [slices, ← List.flatMap_def] at hslices
  simp only [hpage, hslices]
  rw [Nat.zero_mul, List.extract_eq_take_drop, Nat.sub_zero, List.drop_zero,
    List.take_of_length_le hcount]

theorem pagesGive_sortedHits
    (hstore : adapter.indices.get index = some store) (query : SearchQuery) :
    PagesGive locale adapter index query (sortedHits locale store query) where
  page page hitsPerPage := by
    obtain ⟨result, hresult, htotal, hhits⟩ :=
      page_eq locale hstore query page hitsPerPage
    refine ⟨result, hresult, htotal, ?_⟩
    rw [hhits, List.extract_eq_take_drop, Nat.add_one_mul,
      Nat.add_sub_cancel_left]
    exact List.length_take_le _ _
  flatMap_pages _ _ _ hcount := flatMap_pages hstore hcount

/-- The pages give only one list. -/
theorem eq_sortedHits_of_pagesGive
    (hstore : adapter.indices.get index = some store)
    {hits : List (SearchDocument ν)}
    (hpages : PagesGive locale adapter index query hits) :
    hits = sortedHits locale store query := by
  have hhits := hpages.flatMap_pages 1 Nat.one_pos
    (hits.length + (sortedHits locale store query).length) (by omega)
  rw [← hhits]
  exact flatMap_pages hstore (by omega)

theorem applySort_eq_sortedBy (locale : Locale ν)
    (docs : List (SearchDocument ν)) (sort : List SortField) :
    applySort locale docs sort =
      sortedBy (compareAll (compareByField locale) sort) docs := by
  unfold applySort
  split
  · rename_i hnone
    rw [List.length_eq_zero_iff.mp hnone]
    symm
    apply List.Pairwise.insertionSort_eq
    exact List.pairwise_of_forall fun _ _ => rfl
  · rfl

end Pages

/-! ## The order that a query asks for -/

def numberAt (doc : SearchDocument ν) (field : Text) : Option ν :=
  match doc.fields.get field with
  | some (.number value) => some value
  | _ => none

def AllNumbers (docs : List (SearchDocument ν)) (field : Text) : Prop :=
  ∀ doc ∈ docs, (numberAt doc field).isSome = true

instance (docs : List (SearchDocument ν)) (field : Text) :
    Decidable (AllNumbers docs field) :=
  inferInstanceAs (Decidable (∀ doc ∈ docs, (numberAt doc field).isSome = true))

variable [LinearOrder ν]

def compareNumbers (field : Text) (a b : SearchDocument ν) : Ordering :=
  match numberAt a field, numberAt b field with
  | some x, some y => compare x y
  | _, _ => .eq

/-- The order of one clause: that of the numbers where all values of the field
are numbers, and that of the texts otherwise. -/
def askedOrder (locale : Locale ν) (docs : List (SearchDocument ν))
    (clause : SortField) (a b : SearchDocument ν) : Ordering :=
  if AllNumbers docs clause.field then
    clause.order.apply (compareNumbers clause.field) a b
  else compareByField locale clause a b

/-- The hits of a query are the matching documents in the order that is asked
for, and the pages give them. -/
def SearchLaw (locale : Locale ν) (adapter : InMemorySearchAdapter ν)
    (index : Text) (query : SearchQuery) : Prop :=
  ∀ store, adapter.indices.get index = some store →
    ∃ hits, hits.Perm (matching locale store query) ∧
      hits.Pairwise (NotAfter (compareAll
        (askedOrder locale (matching locale store query))
        (query.sort.getD []))) ∧
      PagesGive locale adapter index query hits

/-- Where a clause of numbers decides between two documents, their numbers are
in the order of their texts. -/
def NumbersInTextOrder (locale : Locale ν) (docs : List (SearchDocument ν))
    (sort : List SortField) : Prop :=
  ∀ before clause after, sort = before ++ clause :: after →
    AllNumbers docs clause.field → ∀ a ∈ docs, ∀ b ∈ docs,
      (∀ earlier ∈ before, askedOrder locale docs earlier a b = .eq) →
      ∀ x y, numberAt a clause.field = some x →
        numberAt b clause.field = some y → x < y →
        locale.localeCompare (locale.numberText x) (locale.numberText y) = .lt

/-! ## The comparisons of a clause -/

section Clauses

variable {locale : Locale ν} {docs : List (SearchDocument ν)}
  {a b : SearchDocument ν} {clause : SortField} {sort : List SortField}
  {x y : ν}

omit [LinearOrder ν] in
theorem SortOrder.transCmp_apply {α : Type*} (order : SortOrder)
    {cmp : α → α → Ordering} (hcmp : TransCmp cmp) :
    TransCmp (order.apply cmp) := by
  cases order with
  | asc => exact hcmp
  | desc => exact inferInstanceAs (TransCmp fun a b => cmp b a)

omit [LinearOrder ν] in
theorem transCmp_compareByField (locale : Locale ν) (clause : SortField) :
    TransCmp (compareByField locale clause) := by
  have horder := clause.order.transCmp_apply locale.transCmp
  exact
    { eq_swap := horder.eq_swap
      isLE_trans := horder.isLE_trans }

theorem orientedCmp_compareNumbers (field : Text) :
    OrientedCmp (compareNumbers (ν := ν) field) where
  eq_swap {a b} := by
    unfold compareNumbers
    cases numberAt a field with
    | none => cases numberAt b field <;> rfl
    | some x =>
        cases numberAt b field with
        | none => rfl
        | some y => exact Std.OrientedOrd.eq_swap

theorem orientedCmp_askedOrder (locale : Locale ν)
    (docs : List (SearchDocument ν)) (clause : SortField) :
    OrientedCmp (askedOrder locale docs clause) := by
  unfold askedOrder
  split
  · have hnumbers := orientedCmp_compareNumbers (ν := ν) clause.field
    cases clause.order with
    | asc => exact hnumbers
    | desc =>
        exact inferInstanceAs
          (OrientedCmp fun a b => compareNumbers clause.field b a)
  · exact (transCmp_compareByField locale clause).toOrientedCmp

theorem askedOrder_eq_symm {before : List SortField}
    (hbefore : ∀ earlier ∈ before, askedOrder locale docs earlier a b = .eq) :
    ∀ earlier ∈ before, askedOrder locale docs earlier b a = .eq := by
  intro earlier hearlier
  have horiented := orientedCmp_askedOrder locale docs earlier
  exact OrientedCmp.eq_symm (hbefore earlier hearlier)

omit [LinearOrder ν] in
theorem get_of_numberAt {field : Text} (hnumber : numberAt a field = some x) :
    a.fields.get field = some (.number x) := by
  unfold numberAt at hnumber
  split at hnumber
  · rename_i value hget
    rw [hget, Option.some.inj hnumber]
  · cases hnumber

omit [LinearOrder ν] in
theorem compareByField_of_numbers (ha : numberAt a clause.field = some x)
    (hb : numberAt b clause.field = some y) :
    compareByField locale clause a b =
      clause.order.apply locale.localeCompare (locale.numberText x)
        (locale.numberText y) := by
  rw [compareByField, get_of_numberAt ha, get_of_numberAt hb]
  rfl

theorem askedOrder_of_numbers (hall : AllNumbers docs clause.field)
    (ha : numberAt a clause.field = some x)
    (hb : numberAt b clause.field = some y) :
    askedOrder locale docs clause a b = clause.order.apply compare x y := by
  rw [askedOrder, if_pos hall]
  cases clause.order with
  | asc => simp [SortOrder.apply, compareNumbers, ha, hb]
  | desc => simp [SortOrder.apply, compareNumbers, ha, hb]

omit [LinearOrder ν] in
theorem localeCompare_numberText_eq_iff :
    locale.localeCompare (locale.numberText x) (locale.numberText y) = .eq ↔
      x = y := by
  have htrans := locale.transCmp
  constructor
  · exact locale.eq_of_compare x y
  · rintro rfl
    exact ReflCmp.compare_self

/-- The code and the order that is asked for call the same values equal. -/
theorem compareByField_eq_eq_iff (ha : a ∈ docs) (hb : b ∈ docs) :
    compareByField locale clause a b = .eq ↔
      askedOrder locale docs clause a b = .eq := by
  by_cases hall : AllNumbers docs clause.field
  · obtain ⟨x, hx⟩ := Option.isSome_iff_exists.mp (hall a ha)
    obtain ⟨y, hy⟩ := Option.isSome_iff_exists.mp (hall b hb)
    rw [compareByField_of_numbers hx hy, askedOrder_of_numbers hall hx hy]
    cases clause.order with
    | asc =>
        exact localeCompare_numberText_eq_iff.trans compare_eq_iff_eq.symm
    | desc =>
        exact localeCompare_numberText_eq_iff.trans compare_eq_iff_eq.symm
  · rw [askedOrder, if_neg hall]

/-- The code sorts by the order that is asked for if and only if the numbers
are in the order of their texts where they decide. -/
theorem pairwise_askedOrder_iff (sort : List SortField) :
    (sortedBy (compareAll (compareByField locale) sort) docs).Pairwise
        (NotAfter (compareAll (askedOrder locale docs) sort)) ↔
      NumbersInTextOrder locale docs sort := by
  have hcode := transCmp_compareAll (transCmp_compareByField locale) sort
  have hasked := orientedCmp_compareAll (orientedCmp_askedOrder locale docs)
    sort
  rw [pairwise_sortedBy_iff]
  · constructor
    · intro hfollows before clause after hsort hall a ha b hb hbefore x y hx hy
        hlt
      have hdecides := fun first hfirst second hsecond =>
        (follows_compareAll_iff fun clause _ =>
          compareByField_eq_eq_iff hfirst hsecond).mp
          (hfollows first hfirst second hsecond) before clause after hsort
      cases horder : clause.order with
      | asc =>
          have hcompare := hdecides a ha b hb hbefore
          rw [askedOrder_of_numbers hall hx hy,
            compareByField_of_numbers hx hy, horder] at hcompare
          exact hcompare (compare_lt_iff_lt.mpr hlt)
      | desc =>
          have hcompare := hdecides b hb a ha (askedOrder_eq_symm hbefore)
          rw [askedOrder_of_numbers hall hy hx,
            compareByField_of_numbers hy hx, horder] at hcompare
          exact hcompare (compare_lt_iff_lt.mpr hlt)
    · intro hnumbers a ha b hb
      rw [follows_compareAll_iff fun clause _ =>
        compareByField_eq_eq_iff ha hb]
      intro before clause after hsort hbefore hlt
      by_cases hall : AllNumbers docs clause.field
      · obtain ⟨x, hx⟩ := Option.isSome_iff_exists.mp (hall a ha)
        obtain ⟨y, hy⟩ := Option.isSome_iff_exists.mp (hall b hb)
        rw [askedOrder_of_numbers hall hx hy] at hlt
        rw [compareByField_of_numbers hx hy]
        cases horder : clause.order with
        | asc =>
            rw [horder] at hlt
            exact hnumbers before clause after hsort hall a ha b hb hbefore x y
              hx hy (compare_lt_iff_lt.mp hlt)
        | desc =>
            rw [horder] at hlt
            exact hnumbers before clause after hsort hall b hb a ha
              (askedOrder_eq_symm hbefore) y x hy hx (compare_lt_iff_lt.mp hlt)
      · rw [askedOrder, if_neg hall] at hlt
        exact hlt
  · intro a ha b hb heq
    rw [compareAll_eq_eq_iff] at heq ⊢
    intro clause hclause
    exact (compareByField_eq_eq_iff ha hb).mp (heq clause hclause)

end Clauses

/-- The law holds if and only if, in every index that there is, the numbers
that decide are in the order of their texts. -/
theorem searchLaw_iff_numbersInTextOrder (locale : Locale ν)
    (adapter : InMemorySearchAdapter ν) (index : Text) (query : SearchQuery) :
    SearchLaw locale adapter index query ↔
      ∀ store, adapter.indices.get index = some store →
        NumbersInTextOrder locale (matching locale store query)
          (query.sort.getD []) := by
  have hsorted : ∀ store, sortedHits locale store query =
      sortedBy (compareAll (compareByField locale) (query.sort.getD []))
        (matching locale store query) :=
    fun _ => applySort_eq_sortedBy _ _ _
  constructor
  · intro hlaw store hstore
    obtain ⟨hits, -, hpairwise, hpages⟩ := hlaw store hstore
    rw [eq_sortedHits_of_pagesGive hstore hpages, hsorted] at hpairwise
    exact (pairwise_askedOrder_iff _).mp hpairwise
  · intro hnumbers store hstore
    refine ⟨sortedHits locale store query, ?_, ?_,
      pagesGive_sortedHits hstore query⟩
    · rw [hsorted]
      exact perm_sortedBy _ _
    · rw [hsorted]
      exact (pairwise_askedOrder_iff _).mpr (hnumbers store hstore)

/-- Digits are in the same order in every locale. -/
def decimalLocale : Locale ℕ where
  localeCompare := compare
  transCmp := inferInstance
  toLowerCase := List.map Char.toLower
  numberText := Nat.toDigits 10
  eq_of_compare first second heq := by
    have htext := Std.LawfulEqCmp.eq_of_compare heq
    calc
      first = Nat.ofDigitChars 10 (Nat.toDigits 10 first) 0 :=
        Nat.ofDigitChars_ten_toDigits.symm
      _ = Nat.ofDigitChars 10 (Nat.toDigits 10 second) 0 := by rw [htext]
      _ = second := Nat.ofDigitChars_ten_toDigits

def pricedAt (id : Char) (price : ℕ) : SearchDocument ℕ where
  fields :=
    { entries := [(['i', 'd'], .string [id]), (['p'], .number price)]
      nodup := by
        change [['i', 'd'], ['p']].Nodup
        decide }
  id := [id]
  get_id := rfl

def twoPrices : InMemorySearchAdapter ℕ where
  indices := InsertionMap.empty.set ['x']
    ((InsertionMap.empty.set ['a'] (pricedAt 'a' 9)).set ['b']
      (pricedAt 'b' 10))

def byPrice : SearchQuery where
  q := []
  page := none
  hitsPerPage := none
  filters := none
  facets := none
  sort := some [⟨['p'], .asc⟩]

/-- The price 10 comes before the price 9. -/
theorem not_searchLaw_byPrice :
    ¬ SearchLaw decimalLocale twoPrices ['x'] byPrice := by
  intro hlaw
  obtain ⟨hits, -, hpairwise, hpages⟩ := hlaw _ rfl
  rw [eq_sortedHits_of_pagesGive rfl hpages] at hpairwise
  revert hpairwise
  decide +kernel

end TsCommons.Search
