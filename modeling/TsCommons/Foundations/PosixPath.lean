import TsCommons.Foundations.Text

/-!
# POSIX paths

`join`, `normalize` and `dirname` work on the texts of paths.  A text leads to
a location in the tree of directories: to the names on the way from the root.
Where relative segments lead from a directory depends on how far they climb
above it and on the names that they descend to from there.
-/

namespace TsCommons.Foundations

namespace PosixPath

def here : Text := ['.']

def up : Text := ['.', '.']

/-- What an entry of a directory can be called. -/
def IsName (text : Text) : Prop :=
  text ≠ [] ∧ text ≠ here ∧ text ≠ up ∧ '/' ∉ text

instance IsName.decidable (text : Text) : Decidable (IsName text) :=
  inferInstanceAs (Decidable
    (text ≠ [] ∧ text ≠ here ∧ text ≠ up ∧ '/' ∉ text))

structure Name where
  text : Text
  isName : IsName text
deriving DecidableEq

/-- The names on the way from the root. -/
abbrev Location := List Name

def segments (path : Text) : List Text := path.splitOn '/'

/-- The directory above the root is the root. -/
def enter (location : Location) (segment : Text) : Location :=
  if hname : IsName segment then location ++ [⟨segment, hname⟩]
  else if segment = up then location.dropLast
  else location

def walk (location : Location) (segments : List Text) : Location :=
  segments.foldl enter location

def locate (path : Text) : Location := walk [] (segments path)

/-! ## The functions on texts -/

def isAbsolute (path : Text) : Bool := path.head? = some '/'

def endsInSlash (path : Text) : Bool := path.getLast? = some '/'

/-- One round of the loop of `normalizeString`. -/
def normalizeSegment (allowAboveRoot : Bool) (result : List Text)
    (segment : Text) : List Text :=
  if segment = [] ∨ segment = here then result
  else if segment = up then
    if result = [] ∨ result.getLast? = some up then
      if allowAboveRoot then result ++ [up] else result
    else result.dropLast
  else result ++ [segment]

def normalizeString (path : Text) (allowAboveRoot : Bool) : Text :=
  ['/'].intercalate
    ((segments path).foldl (normalizeSegment allowAboveRoot) [])

def normalize (path : Text) : Text :=
  if path = [] then here
  else
    let body := normalizeString path (!isAbsolute path)
    if body = [] then
      if isAbsolute path then ['/']
      else if endsInSlash path then ['.', '/'] else here
    else
      let body := if endsInSlash path then body ++ ['/'] else body
      if isAbsolute path then '/' :: body else body

def join (paths : List Text) : Text :=
  let given := paths.filter (· ≠ [])
  if given = [] then here else normalize (['/'].intercalate given)

def dirname (path : Text) : Text :=
  let above := (path.rdropWhile (· = '/')).rdropWhile (· ≠ '/')
  if above = [] then if isAbsolute path then ['/'] else here
  else if above = ['/'] ∨ above = ['/', '/'] then above
  else above.dropLast

/-! ## Segments -/

variable {location other : Location} {path : Text} {name : Name}

theorem segments_append_cons (first second : Text) :
    segments (first ++ '/' :: second) = segments first ++ segments second :=
  List.splitOn_append_cons_self first second

theorem not_mem_of_mem_segments {segment : Text}
    (hmem : segment ∈ segments path) : '/' ∉ segment :=
  (Text.not_mem_of_mem_splitOn hmem).1

theorem segments_name (name : Name) : segments name.text = [name.text] :=
  List.splitOn_eq_singleton name.isName.2.2.2

theorem segments_intercalate {paths : List Text} (hpaths : paths ≠ []) :
    segments (['/'].intercalate paths) = paths.flatMap segments := by
  induction paths with
  | nil => exact absurd rfl hpaths
  | cons path rest ih =>
      cases rest with
      | nil => simp
      | cons next rest =>
          rw [List.intercalate_cons_cons, List.append_assoc,
            List.singleton_append, segments_append_cons,
            ih (List.cons_ne_nil next rest)]
          rfl

/-! ## Locations -/

@[simp] theorem enter_name (location : Location) (name : Name) :
    enter location name.text = location ++ [name] :=
  dif_pos name.isName

@[simp] theorem enter_nil (location : Location) :
    enter location [] = location := by
  simp [enter, IsName, up]

theorem enter_up (location : Location) :
    enter location up = location.dropLast := by
  simp [enter, IsName]

theorem walk_append (location : Location) (first second : List Text) :
    walk location (first ++ second) = walk (walk location first) second :=
  List.foldl_append

theorem walk_names (location names : Location) :
    walk location (names.map Name.text) = location ++ names := by
  induction names generalizing location with
  | nil => simp [walk]
  | cons name rest ih =>
      rw [List.map_cons, walk, List.foldl_cons, enter_name, ← walk, ih,
        List.append_assoc, List.singleton_append]

theorem locate_append_cons (first second : Text) :
    locate (first ++ '/' :: second) =
      walk (locate first) (segments second) := by
  rw [locate, segments_append_cons, walk_append, ← locate]

theorem walk_flatMap_filter (location : Location) (paths : List Text) :
    walk location ((paths.filter (· ≠ [])).flatMap segments) =
      walk location (paths.flatMap segments) := by
  induction paths generalizing location with
  | nil => rfl
  | cons path rest ih =>
      by_cases hempty : path = []
      · subst path
        have hskip : walk location (segments []) = location := by
          simp [segments, walk]
        rw [List.filter_cons_of_neg (by simp), List.flatMap_cons,
          walk_append, hskip, ih]
      · rw [List.filter_cons_of_pos (by simpa using hempty),
          List.flatMap_cons, List.flatMap_cons, walk_append, walk_append, ih]

/-! ## Normal texts -/

/-- The text that leads to the location from the root. -/
def render (location : Location) (slash : Bool) : Text :=
  if location = [] then ['/']
  else location.flatMap (fun name => '/' :: name.text) ++
    if slash then ['/'] else []

theorem normalizeSegment_map (location : Location) {segment : Text}
    (hslash : '/' ∉ segment) :
    normalizeSegment false (location.map Name.text) segment =
      (enter location segment).map Name.text := by
  by_cases hname : IsName segment
  · obtain ⟨hempty, hhere, hup, -⟩ := hname
    rw [enter, dif_pos ⟨hempty, hhere, hup, hslash⟩, normalizeSegment,
      if_neg (not_or.mpr ⟨hempty, hhere⟩), if_neg hup, List.map_append]
    rfl
  · rw [enter, dif_neg hname, normalizeSegment]
    by_cases hup : segment = up
    · have hlast : (location.map Name.text).getLast? ≠ some up := by
        intro heq
        obtain ⟨name, -, hname⟩ :=
          List.mem_map.mp (List.mem_of_getLast? heq)
        exact name.isName.2.2.1 hname
      rw [if_neg (by simp [hup, up, here]), if_pos hup, if_pos hup]
      by_cases hempty : location = []
      · simp [hempty]
      · have htexts : location.map Name.text ≠ [] := by simpa using hempty
        rw [if_neg (not_or.mpr ⟨htexts, hlast⟩), List.map_dropLast]
    · have hskip : segment = [] ∨ segment = here := by
        by_contra hnot
        exact hname ⟨fun heq => hnot (.inl heq), fun heq => hnot (.inr heq),
          hup, hslash⟩
      rw [if_pos hskip, if_neg hup]

theorem foldl_normalizeSegment (location : Location) {texts : List Text}
    (hslash : ∀ text ∈ texts, '/' ∉ text) :
    texts.foldl (normalizeSegment false) (location.map Name.text) =
      (walk location texts).map Name.text := by
  induction texts generalizing location with
  | nil => rfl
  | cons text rest ih =>
      rw [List.foldl_cons,
        normalizeSegment_map location (hslash text List.mem_cons_self), ih]
      · rfl
      · intro other hmem
        exact hslash other (List.mem_cons_of_mem text hmem)

theorem cons_intercalate {texts : List Text} (htexts : texts ≠ []) :
    '/' :: ['/'].intercalate texts = texts.flatMap fun text => '/' :: text := by
  induction texts with
  | nil => exact absurd rfl htexts
  | cons text rest ih =>
      cases rest with
      | nil => simp
      | cons next rest =>
          rw [List.intercalate_cons_cons, List.append_assoc,
            List.singleton_append, ih (List.cons_ne_nil next rest)]
          rfl

theorem normalize_of_isAbsolute (habsolute : isAbsolute path = true) :
    normalize path = render (locate path) (endsInSlash path) := by
  have hbody : normalizeString path false =
      ['/'].intercalate ((locate path).map Name.text) := by
    have hfold : (segments path).foldl (normalizeSegment false) [] =
        (locate path).map Name.text :=
      foldl_normalizeSegment [] fun _ => not_mem_of_mem_segments
    rw [normalizeString, hfold]
  have hne : path ≠ [] := by
    rintro rfl
    cases habsolute
  rw [normalize, if_neg hne, habsolute, Bool.not_true, hbody, render]
  by_cases hroot : locate path = []
  · simp [hroot]
  · have htexts : (locate path).map Name.text ≠ [] := by
      simpa using hroot
    have hflat := cons_intercalate htexts
    rw [List.flatMap_map] at hflat
    have hnonempty :
        ['/'].intercalate ((locate path).map Name.text) ≠ [] := by
      intro heq
      rw [heq] at hflat
      cases hlocation : locate path with
      | nil => exact hroot hlocation
      | cons name rest =>
          rw [hlocation, List.flatMap_cons, List.cons_append,
            List.cons.injEq] at hflat
          exact name.isName.1 (List.append_eq_nil_iff.mp hflat.2.symm).1
    simp only [if_neg hroot, if_neg hnonempty, if_true, ← hflat]
    split <;> simp

theorem segments_flatMap_names (location : Location) :
    (location.map Name.text).flatMap segments = location.map Name.text := by
  induction location with
  | nil => rfl
  | cons name rest ih =>
      rw [List.map_cons, List.flatMap_cons, segments_name, ih,
        List.singleton_append]

theorem walk_name (location : Location) (name : Name) :
    walk location (segments name.text) = location ++ [name] := by
  rw [segments_name]
  exact enter_name location name

theorem walk_empty (location : Location) : walk location [[]] = location :=
  enter_nil location

theorem locate_nil : locate [] = [] := walk_empty []

theorem locate_flatMap (location : Location) :
    locate (location.flatMap fun name => '/' :: name.text) = location := by
  by_cases hroot : location = []
  · subst location
    exact locate_nil
  · have htexts : location.map Name.text ≠ [] := by
      simpa using hroot
    have hflat := cons_intercalate htexts
    rw [List.flatMap_map] at hflat
    rw [← hflat, ← List.nil_append ('/' :: _), locate_append_cons,
      segments_intercalate htexts, segments_flatMap_names, locate_nil,
      walk_names, List.nil_append]

theorem locate_concat_slash (path : Text) :
    locate (path ++ ['/']) = locate path := by
  rw [locate_append_cons]
  exact walk_empty (locate path)

theorem locate_render (location : Location) (slash : Bool) :
    locate (render location slash) = location := by
  rw [render]
  by_cases hroot : location = []
  · rw [if_pos hroot, hroot, ← List.nil_append ['/'], locate_concat_slash,
      locate_nil]
  · rw [if_neg hroot]
    cases slash with
    | false => simpa using locate_flatMap location
    | true => rw [if_pos rfl, locate_concat_slash, locate_flatMap]

/-- What `normalize` gives for an absolute path. -/
def IsNormal (path : Text) : Prop :=
  ∃ location slash, path = render location slash

theorem join_eq_render {base : Text} (rest : List Text)
    (habsolute : isAbsolute base = true) :
    join (base :: rest) =
      render (walk (locate base) (rest.flatMap segments))
        (endsInSlash (['/'].intercalate (base :: rest.filter (· ≠ [])))) := by
  have hne : base ≠ [] := by
    rintro rfl
    cases habsolute
  have hgiven : (base :: rest).filter (· ≠ []) =
      base :: rest.filter (· ≠ []) :=
    List.filter_cons_of_pos (by simpa using hne)
  have hjoined : isAbsolute
      (['/'].intercalate (base :: rest.filter (· ≠ []))) = true := by
    cases hbase : base with
    | nil => exact absurd hbase hne
    | cons char chars =>
        have hchar : char = '/' := by
          simpa [isAbsolute, hbase] using habsolute
        cases rest.filter (· ≠ []) with
        | nil => simp [isAbsolute, hchar]
        | cons next more =>
            simp [isAbsolute, hchar, List.intercalate_cons_cons]
  simp only [join]
  rw [hgiven, if_neg (List.cons_ne_nil base _),
    normalize_of_isAbsolute hjoined, locate,
    segments_intercalate (List.cons_ne_nil base _), List.flatMap_cons,
    walk_append, ← locate, walk_flatMap_filter]

theorem isNormal_join {base : Text} (rest : List Text)
    (habsolute : isAbsolute base = true) : IsNormal (join (base :: rest)) := by
  rw [join_eq_render rest habsolute]
  exact ⟨_, _, rfl⟩

theorem locate_join {base : Text} (rest : List Text)
    (habsolute : isAbsolute base = true) :
    locate (join (base :: rest)) =
      walk (locate base) (rest.flatMap segments) := by
  rw [join_eq_render rest habsolute, locate_render]

/-! ## The last name of a normal text -/

theorem rdropWhile_append_of_forall {α : Type*} {test : α → Bool}
    (first : List α) {second : List α} (hall : ∀ item ∈ second, test item) :
    (first ++ second).rdropWhile test = first.rdropWhile test := by
  rw [List.rdropWhile, List.reverse_append,
    List.dropWhile_append_of_pos (by simpa using hall), ← List.rdropWhile]

theorem getLast?_name_ne (name : Name) : name.text.getLast? ≠ some '/' :=
  fun heq => name.isName.2.2.2 (List.mem_of_getLast? heq)

theorem endsInSlash_append_name (first : Text) (name : Name) :
    endsInSlash (first ++ name.text) = false := by
  rw [endsInSlash, List.getLast?_append_of_ne_nil _ name.isName.1]
  exact decide_eq_false (getLast?_name_ne name)

theorem getLast?_intercalate_concat (texts : List Text) {last : Text}
    (hlast : last ≠ []) :
    (['/'].intercalate (texts ++ [last])).getLast? = last.getLast? := by
  induction texts with
  | nil => simp
  | cons text rest ih =>
      obtain ⟨next, more, hmore⟩ := List.exists_cons_of_ne_nil
        (List.append_ne_nil_of_right_ne_nil rest (List.cons_ne_nil last []))
      rw [hmore] at ih
      rw [List.cons_append, hmore, List.intercalate_cons_cons,
        List.getLast?_append, ih, List.getLast?_eq_some_getLast hlast]
      rfl

/-- A join that ends with a name does not end in a slash. -/
theorem endsInSlash_join_name {base : Text} (rest : List Text) (name : Name)
    (habsolute : isAbsolute base = true) :
    endsInSlash (join (base :: (rest ++ [name.text]))) = false := by
  have hfilter : (rest ++ [name.text]).filter (· ≠ []) =
      rest.filter (· ≠ []) ++ [name.text] := by
    simp [List.filter_append, name.isName.1]
  have hslash : endsInSlash (['/'].intercalate
      (base :: (rest ++ [name.text]).filter (· ≠ []))) = false := by
    rw [hfilter, ← List.cons_append, endsInSlash,
      getLast?_intercalate_concat _ name.isName.1]
    exact decide_eq_false (getLast?_name_ne name)
  rw [join_eq_render _ habsolute, hslash, List.flatMap_append, walk_append,
    List.flatMap_singleton, walk_name, render, if_neg (by simp)]
  simp only [List.flatMap_append, List.flatMap_singleton, Bool.false_eq_true,
    if_false, List.append_nil]
  rw [List.append_cons]
  exact endsInSlash_append_name _ name

/-- A normal text is the root, or ends in a name and perhaps a slash. -/
theorem IsNormal.cases_last (hnormal : IsNormal path) :
    path = ['/'] ∧ locate path = [] ∨
      ∃ above name, locate path = above ++ [name] ∧
        (path = (above.flatMap fun name => '/' :: name.text) ++
          '/' :: name.text ∨
        path = (above.flatMap fun name => '/' :: name.text) ++
          '/' :: (name.text ++ ['/'])) := by
  obtain ⟨location, slash, rfl⟩ := hnormal
  rw [locate_render]
  rcases List.eq_nil_or_concat location with rfl | ⟨above, name, rfl⟩
  · exact .inl ⟨rfl, rfl⟩
  · refine .inr ⟨above, name, List.concat_eq_append, ?_⟩
    cases slash with
    | false => exact .inl (by simp [render])
    | true => exact .inr (by simp [render])

theorem IsNormal.locate_dirname (hnormal : IsNormal path) :
    locate (dirname path) = (locate path).dropLast := by
  rcases hnormal.cases_last with ⟨rfl, hroot⟩ | ⟨above, name, hlocate, htext⟩
  · rw [hroot]
    rfl
  · have hslashes : path.rdropWhile (· = '/') =
        (above.flatMap fun name => '/' :: name.text) ++ '/' :: name.text := by
      have hlast : ((above.flatMap fun name => '/' :: name.text) ++
          '/' :: name.text).rdropWhile (· = '/') =
          (above.flatMap fun name => '/' :: name.text) ++ '/' :: name.text := by
        rw [List.rdropWhile_eq_self_iff]
        intro hne hslash
        rw [List.getLast_append_of_ne_nil _ (List.cons_ne_nil _ _),
          List.getLast_cons name.isName.1] at hslash
        apply getLast?_name_ne name
        rw [List.getLast?_eq_some_getLast name.isName.1,
          of_decide_eq_true hslash]
      rcases htext with rfl | rfl
      · exact hlast
      · rw [← List.cons_append, ← List.append_assoc,
          List.rdropWhile_concat_pos _ _ _ (by simp), hlast]
    have habove : (path.rdropWhile (· = '/')).rdropWhile (· ≠ '/') =
        (above.flatMap fun name => '/' :: name.text) ++ ['/'] := by
      rw [hslashes, List.append_cons, rdropWhile_append_of_forall,
        List.rdropWhile_concat_neg _ _ _ (by simp)]
      intro char hmem
      have hne : char ≠ '/' := fun heq => name.isName.2.2.2 (heq ▸ hmem)
      simpa using hne
    rw [hlocate, List.dropLast_concat, dirname, habove, if_neg (by simp)]
    split
    · rw [locate_concat_slash, locate_flatMap]
    · rw [List.dropLast_concat, locate_flatMap]

/-! ## Longer last names -/

theorem IsName.append {suffix : Text} (hname : IsName path)
    (hslash : '/' ∉ suffix) (hchar : ∃ char ∈ suffix, char ≠ '.') :
    IsName (path ++ suffix) := by
  obtain ⟨char, hmem, hdot⟩ := hchar
  have hall : char ∈ path ++ suffix := List.mem_append_right path hmem
  refine ⟨?_, ?_, ?_, ?_⟩
  · rintro hempty
    rw [hempty] at hall
    cases hall
  · intro hhere
    rw [hhere] at hall
    exact hdot (List.mem_singleton.mp hall)
  · intro hup
    rw [hup] at hall
    simp [up, hdot] at hall
  · rw [List.mem_append]
    exact fun hor => hor.elim hname.2.2.2 hslash

/-- A suffix makes the last name longer, and is a name of its own behind a
slash. -/
theorem IsNormal.locate_append {suffix : Name} (hnormal : IsNormal path)
    (hchar : ∃ char ∈ suffix.text, char ≠ '.') :
    endsInSlash path = true ∧
        locate (path ++ suffix.text) = locate path ++ [suffix] ∨
      endsInSlash path = false ∧ ∃ above name,
        locate path = above ++ [name] ∧
        locate (path ++ suffix.text) = above ++
          [⟨name.text ++ suffix.text,
            name.isName.append suffix.isName.2.2.2 hchar⟩] := by
  rcases hnormal.cases_last with ⟨rfl, hroot⟩ | ⟨above, name, hlocate, htext⟩
  · refine .inl ⟨rfl, ?_⟩
    rw [hroot, List.singleton_append, ← List.nil_append ('/' :: _),
      locate_append_cons, locate_nil, walk_name]
  · rcases htext with rfl | rfl
    · have hlonger := walk_name above ⟨name.text ++ suffix.text,
        name.isName.append suffix.isName.2.2.2 hchar⟩
      refine .inr ⟨?_, above, name, hlocate, ?_⟩
      · rw [List.append_cons, endsInSlash_append_name]
      · rw [List.append_assoc, List.cons_append, locate_append_cons,
          locate_flatMap, hlonger]
    · refine .inl ⟨?_, ?_⟩
      · rw [endsInSlash, ← List.cons_append, ← List.append_assoc,
          List.getLast?_concat, decide_eq_true rfl]
      · rw [hlocate, ← List.cons_append, ← List.append_assoc,
          List.append_assoc, List.singleton_append, locate_append_cons,
          locate_append_cons, locate_flatMap, walk_name, walk_name]

/-! ## Staying below a directory -/

/-- How far the segments climb above the directory they start from, and the
names that they descend to from there. -/
def descend (relative : ℕ × Location) (segment : Text) : ℕ × Location :=
  if hname : IsName segment then
    (relative.1, relative.2 ++ [⟨segment, hname⟩])
  else if segment = up then
    if relative.2 = [] then (relative.1 + 1, [])
    else (relative.1, relative.2.dropLast)
  else relative

def relative (segments : List Text) : ℕ × Location :=
  segments.foldl descend (0, [])

theorem walk_eq (location : Location) (texts : List Text) :
    walk location texts =
      location.take (location.length - (relative texts).1) ++
        (relative texts).2 := by
  induction texts using List.reverseRec with
  | nil => simp [walk, relative]
  | append_singleton texts text ih =>
      have hlast : relative (texts ++ [text]) =
          descend (relative texts) text := by
        rw [relative, List.foldl_concat, ← relative]
      rw [walk_append, ih, hlast, walk, List.foldl_cons, List.foldl_nil, enter,
        descend]
      by_cases hname : IsName text
      · simp [hname]
      · by_cases hup : text = up
        · simp only [dif_neg hname, if_pos hup]
          by_cases hempty : (relative texts).2 = []
          · rw [if_pos hempty, hempty, List.append_nil, List.append_nil,
              List.dropLast_eq_take, List.take_take, List.length_take]
            congr 1
            omega
          · rw [if_neg hempty, List.dropLast_append_of_ne_nil hempty]
        · simp [hname, hup]

/-- Whatever the segments climb above the directory they descend again. -/
def StaysBelow (location : Location) (segments : List Text) : Prop :=
  location.drop (location.length - (relative segments).1) <+:
    (relative segments).2

instance StaysBelow.decidable (location : Location) (segments : List Text) :
    Decidable (StaysBelow location segments) :=
  inferInstanceAs (Decidable
    (location.drop (location.length - (relative segments).1) <+:
      (relative segments).2))

theorem prefix_walk_iff (location : Location) (segments : List Text) :
    location <+: walk location segments ↔ StaysBelow location segments := by
  have hsplit : location.take (location.length - (relative segments).1) ++
      location.drop (location.length - (relative segments).1) <+:
        location.take (location.length - (relative segments).1) ++
          (relative segments).2 ↔ StaysBelow location segments :=
    List.prefix_append_right_inj _
  rw [List.take_append_drop, ← walk_eq] at hsplit
  exact hsplit

end PosixPath

end TsCommons.Foundations
