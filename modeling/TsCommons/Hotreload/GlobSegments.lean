import TsCommons.Hotreload.GlobSource
import TsCommons.Foundations.PosixPath
import Mathlib.Data.List.Forall2

/-!
# Globs and the segments of paths

What a glob is meant to match, against what it does match.  A glob without
question marks and without `**` segments is read as it is meant.
-/

namespace TsCommons.Hotreload

open Foundations PosixPath

/-- `*` stands for any run of characters. -/
inductive SegmentMatches : Text → Text → Prop
  | nil : SegmentMatches [] []
  | star {segment text : Text} (run : Text)
      (hrest : SegmentMatches segment text) :
      SegmentMatches ('*' :: segment) (run ++ text)
  | char {char : Char} {segment text : Text} (hchar : char ≠ '*')
      (hrest : SegmentMatches segment text) :
      SegmentMatches (char :: segment) (char :: text)

def globstar : Text := ['*', '*']

/-- `**` takes any number of segments, and every other segment of a glob
matches one. -/
inductive SegmentsMatch : List Text → List Text → Prop
  | nil : SegmentsMatch [] []
  | deep {glob path : List Text} (taken : List Text)
      (hrest : SegmentsMatch glob path) :
      SegmentsMatch (globstar :: glob) (taken ++ path)
  | one {segment text : Text} {glob path : List Text}
      (hsegment : segment ≠ globstar) (hmatches : SegmentMatches segment text)
      (hrest : SegmentsMatch glob path) :
      SegmentsMatch (segment :: glob) (text :: path)

/-- Every path is matched exactly if its segments are. -/
def GlobLaw (glob : Text) : Prop :=
  ∀ path, matchesGlob path glob = some true ↔
    SegmentsMatch (segments glob) (segments path)

/-! ## Character by character -/

/-- `*` stands for any run of characters without a slash. -/
inductive PathMatches : Text → Text → Prop
  | nil : PathMatches [] []
  | star {glob path run : Text} (hrun : '/' ∉ run)
      (hrest : PathMatches glob path) : PathMatches ('*' :: glob) (run ++ path)
  | char {char : Char} {glob path : Text} (hchar : char ≠ '*')
      (hrest : PathMatches glob path) :
      PathMatches (char :: glob) (char :: path)

variable {glob path : Text}

theorem mem_language_piecesRegex :
    path ∈ (piecesRegex glob).language ↔ PathMatches glob path := by
  induction glob generalizing path with
  | nil =>
      constructor
      · intro hmem
        rw [show path = [] from hmem]
        exact .nil
      · rintro ⟨⟩
        rfl
  | cons char glob ih =>
      rw [piecesRegex_cons]
      by_cases hstar : char = '*'
      · subst hstar
        constructor
        · rintro ⟨run, rest, rfl, hrun, hrest⟩
          have hall : ∀ other ∈ run, other ≠ '/' := fun other hother => by
            simpa [CharClass.accepts] using hrun other hother
          exact .star (fun hmem => hall '/' hmem rfl) (ih.mp hrest)
        · intro hmatches
          cases hmatches with
          | @star _ rest run hrun hrest =>
              refine ⟨run, rest, rfl, fun other hother => ?_, ih.mpr hrest⟩
              have hne : other ≠ '/' := fun heq => hrun (heq ▸ hother)
              simpa [CharClass.accepts] using hne
          | char hchar _ => exact absurd rfl hchar
      · rw [pieceRegex, if_neg hstar]
        constructor
        · rintro ⟨-, rest, rfl, ⟨other, rfl, haccepts⟩, hrest⟩
          have heq : other = char := of_decide_eq_true haccepts
          rw [heq]
          exact .char hstar (ih.mp hrest)
        · intro hmatches
          cases hmatches with
          | star _ _ => exact absurd rfl hstar
          | @char _ _ rest _ hrest =>
              exact ⟨[char], rest, rfl, ⟨char, rfl, decide_eq_true rfl⟩,
                ih.mpr hrest⟩

theorem exists_segments (text : Text) :
    ∃ head tail, segments text = head :: tail :=
  List.exists_cons_of_ne_nil (List.splitOn_ne_nil '/' text)

theorem segments_slash_cons (text : Text) :
    segments ('/' :: text) = [] :: segments text :=
  segments_append_cons [] text

theorem PathMatches.segments (hmatches : PathMatches glob path) :
    List.Forall₂ SegmentMatches (segments glob) (segments path) := by
  induction hmatches with
  | nil => exact .cons .nil .nil
  | @star glob path run hrun _ ih =>
      obtain ⟨head, tail, hglob⟩ := exists_segments glob
      obtain ⟨head', tail', hpath⟩ := exists_segments path
      rw [hglob, hpath] at ih
      cases ih with
      | cons hhead htail =>
          have hstar : PosixPath.segments ('*' :: glob) =
              ('*' :: head) :: tail :=
            Text.splitOn_cons_of_ne hglob (by decide)
          have hrest : PosixPath.segments (run ++ path) =
              (run ++ head') :: tail' :=
            Text.splitOn_append_of_not_mem hpath hrun
          rw [hstar, hrest]
          exact .cons (.star run hhead) htail
  | @char char glob path hchar _ ih =>
      by_cases hslash : char = '/'
      · subst hslash
        rw [segments_slash_cons, segments_slash_cons]
        exact .cons .nil ih
      · obtain ⟨head, tail, hglob⟩ := exists_segments glob
        obtain ⟨head', tail', hpath⟩ := exists_segments path
        rw [hglob, hpath] at ih
        cases ih with
        | cons hhead htail =>
            have hcons {text head : Text} {tail : List Text}
                (hsplit : PosixPath.segments text = head :: tail) :
                PosixPath.segments (char :: text) = (char :: head) :: tail :=
              Text.splitOn_cons_of_ne hsplit hslash
            rw [hcons hglob, hcons hpath]
            exact .cons (.char hchar hhead) htail

theorem PathMatches.append {glob' path' : Text}
    (hmatches : PathMatches glob path) (hmatches' : PathMatches glob' path') :
    PathMatches (glob ++ glob') (path ++ path') := by
  induction hmatches with
  | nil => exact hmatches'
  | star hrun _ ih =>
      rw [List.append_assoc]
      exact .star hrun ih
  | char hchar _ ih => exact .char hchar ih

theorem SegmentMatches.pathMatches {segment text : Text}
    (hmatches : SegmentMatches segment text) (htext : '/' ∉ text) :
    PathMatches segment text := by
  induction hmatches with
  | nil => exact .nil
  | star run _ ih =>
      rw [List.mem_append, not_or] at htext
      exact .star htext.1 (ih htext.2)
  | char hchar _ ih =>
      exact .char hchar (ih fun hmem => htext (List.mem_cons_of_mem _ hmem))

theorem pathMatches_intercalate {segs texts : List Text}
    (hmatches : List.Forall₂ SegmentMatches segs texts)
    (htexts : ∀ text ∈ texts, '/' ∉ text) :
    PathMatches (['/'].intercalate segs) (['/'].intercalate texts) := by
  induction hmatches with
  | nil => exact .nil
  | cons hhead htail ih =>
      obtain ⟨htext, hrest⟩ := List.forall_mem_cons.mp htexts
      have hfirst := hhead.pathMatches htext
      cases htail with
      | nil =>
          rw [List.intercalate_singleton, List.intercalate_singleton]
          exact hfirst
      | cons hnext hothers =>
          rw [List.intercalate_cons_cons, List.intercalate_cons_cons]
          exact (hfirst.append (.char (by decide) .nil)).append (ih hrest)

theorem pathMatches_iff :
    PathMatches glob path ↔
      List.Forall₂ SegmentMatches (segments glob) (segments path) := by
  refine ⟨PathMatches.segments, fun hmatches => ?_⟩
  have hwhole := pathMatches_intercalate hmatches
    fun _ htext => not_mem_of_mem_segments htext
  rwa [segments, segments, List.intercalate_splitOn,
    List.intercalate_splitOn] at hwhole

/-- Without `**` the segments match one by one. -/
theorem segmentsMatch_iff {segs texts : List Text} (hsegs : globstar ∉ segs) :
    SegmentsMatch segs texts ↔ List.Forall₂ SegmentMatches segs texts := by
  constructor
  · intro hmatches
    induction hmatches with
    | nil => exact .nil
    | deep taken _ _ => exact absurd List.mem_cons_self hsegs
    | one _ hsegment _ ih =>
        exact .cons hsegment
          (ih fun hmem => hsegs (List.mem_cons_of_mem _ hmem))
  · intro hmatches
    induction hmatches with
    | nil => exact .nil
    | cons hsegment _ ih =>
        refine .one ?_ hsegment
          (ih fun hmem => hsegs (List.mem_cons_of_mem _ hmem))
        rintro rfl
        exact hsegs List.mem_cons_self

/-! ## Rewriting without `**` segments -/

theorem exists_of_escape_append {front back : Text} {char : Char}
    (hchar : char ∉ special)
    (heq : glob.flatMap escapeChar = front ++ char :: back) :
    ∃ before after, glob = before ++ char :: after ∧
      before.flatMap escapeChar = front ∧
        after.flatMap escapeChar = back := by
  induction glob generalizing front with
  | nil => exact absurd heq (by simp)
  | cons first glob ih =>
      by_cases hmem : first ∈ special
      · have hfirst : escapeChar first = ['\\', first] := if_pos hmem
        have hslash : '\\' ∈ special := by decide +kernel
        rw [List.flatMap_cons, hfirst] at heq
        cases front with
        | nil =>
            rw [← (List.cons.inj heq).1] at hchar
            exact absurd hslash hchar
        | cons backslash front =>
            obtain ⟨rfl, htail⟩ := List.cons.inj heq
            cases front with
            | nil =>
                rw [← (List.cons.inj htail).1] at hchar
                exact absurd hmem hchar
            | cons second front =>
                obtain ⟨rfl, hlast⟩ := List.cons.inj htail
                obtain ⟨before, after, rfl, hbefore, hafter⟩ := ih hlast
                refine ⟨first :: before, after, rfl, ?_, hafter⟩
                rw [List.flatMap_cons, hfirst, hbefore]
                rfl
      · have hfirst : escapeChar first = [first] := if_neg hmem
        rw [List.flatMap_cons, hfirst] at heq
        cases front with
        | nil =>
            obtain ⟨rfl, hrest⟩ := List.cons.inj heq
            exact ⟨[], glob, rfl, rfl, hrest⟩
        | cons second front =>
            obtain ⟨rfl, htail⟩ := List.cons.inj heq
            obtain ⟨before, after, rfl, hbefore, hafter⟩ := ih htail
            refine ⟨first :: before, after, rfl, ?_, hafter⟩
            rw [List.flatMap_cons, hfirst, hbefore]
            rfl

theorem eq_nil_of_escape (heq : glob.flatMap escapeChar = []) : glob = [] := by
  cases glob with
  | nil => rfl
  | cons first glob =>
      rw [List.flatMap_cons, escapeChar] at heq
      by_cases hmem : first ∈ special
      · rw [if_pos hmem] at heq
        cases heq
      · rw [if_neg hmem] at heq
        cases heq

theorem eq_cons_of_escape {back : Text} {char : Char}
    (hchar : char ∉ special) (heq : glob.flatMap escapeChar = char :: back) :
    ∃ after, glob = char :: after ∧ after.flatMap escapeChar = back := by
  have hsplit : glob.flatMap escapeChar = [] ++ char :: back := heq
  obtain ⟨before, after, rfl, hbefore, hafter⟩ :=
    exists_of_escape_append hchar hsplit
  rw [eq_nil_of_escape hbefore]
  exact ⟨after, rfl, hafter⟩

/-- Two stars in the escaped text are two stars of the glob. -/
theorem eq_stars_of_escape {back : Text}
    (heq : glob.flatMap escapeChar = '*' :: '*' :: back) :
    ∃ after, glob = globstar ++ after ∧ after.flatMap escapeChar = back := by
  obtain ⟨first, rfl, hfirst⟩ := eq_cons_of_escape not_mem_special.1 heq
  obtain ⟨second, rfl, hsecond⟩ :=
    eq_cons_of_escape not_mem_special.1 hfirst
  exact ⟨second, rfl, hsecond⟩

theorem globstar_mem_of_start {after : Text} :
    globstar ∈ segments (globstar ++ '/' :: after) := by
  rw [segments_append_cons]
  exact List.mem_append_left _ List.mem_cons_self

theorem globstar_mem_of_slash {before : Text}
    (hmem : globstar ∈ segments path) :
    globstar ∈ segments (before ++ '/' :: path) := by
  rw [segments_append_cons]
  exact List.mem_append_right _ hmem

section Plain

variable (hglob : globstar ∉ segments glob)

include hglob

theorem replaceInner_eq :
    replaceInner (escapeSpecial glob) = escapeSpecial glob := by
  have hnone : ¬ "/**/".toList <:+: escapeSpecial glob := by
    rintro ⟨front, back, heq⟩
    rw [inner_eq, List.append_assoc] at heq
    obtain ⟨before, after, rfl, -, hafter⟩ :=
      exists_of_escape_append not_mem_special.2.2 heq.symm
    obtain ⟨last, rfl, hlast⟩ := eq_stars_of_escape hafter
    obtain ⟨rest, rfl, -⟩ := eq_cons_of_escape not_mem_special.2.2 hlast
    exact hglob (globstar_mem_of_slash globstar_mem_of_start)
  have hkeep : ∀ text : Text, ¬ "/**/".toList <:+: text →
      replaceAll "/**/".toList "(/.*)?/".toList 0 text = text := by
    intro text
    induction text with
    | nil => exact fun _ => rfl
    | cons char text ih =>
        intro hnone
        rw [replaceAll_cons fun hmatch => hnone hmatch.isInfix,
          ih fun hinfix => hnone (List.infix_cons hinfix)]
  exact hkeep _ hnone

theorem replaceLast_eq :
    replaceLast (escapeSpecial glob) = escapeSpecial glob := by
  have hlast : "/**".toList = ['/', '*', '*'] := by decide +kernel
  refine if_neg fun hmatch => ?_
  obtain ⟨front, heq⟩ := List.isSuffixOf_iff_suffix.mp hmatch
  rw [hlast] at heq
  obtain ⟨before, after, rfl, -, hafter⟩ :=
    exists_of_escape_append not_mem_special.2.2 heq.symm
  obtain ⟨rest, rfl, hrest⟩ := eq_stars_of_escape hafter
  rw [eq_nil_of_escape hrest] at hglob
  exact hglob (globstar_mem_of_slash List.mem_cons_self)

theorem replaceFirst_eq :
    replaceFirst (escapeSpecial glob) = escapeSpecial glob := by
  have hfirst : "**/".toList = ['*', '*', '/'] := by decide +kernel
  refine if_neg fun hmatch => ?_
  obtain ⟨back, heq⟩ := List.isPrefixOf_iff_prefix.mp hmatch
  rw [hfirst] at heq
  obtain ⟨after, rfl, hafter⟩ := eq_stars_of_escape heq.symm
  obtain ⟨rest, rfl, -⟩ := eq_cons_of_escape not_mem_special.2.2 hafter
  exact hglob globstar_mem_of_start

/-- Without `**` segments each character is rewritten by itself. -/
theorem globSource_eq : globSource glob = glob.flatMap pieceText := by
  have hsource : globSource glob = replaceStars (escapeSpecial glob) := by
    rw [globSource, replaceInner_eq hglob, replaceLast_eq hglob,
      replaceFirst_eq hglob]
  rw [hsource]
  exact List.flatMap_assoc

theorem globLaw_of_plain (hmark : '?' ∉ glob) : GlobLaw glob := by
  intro path
  rw [matchesGlob, globSource_eq hglob, ofSource_pieces hmark,
    segmentsMatch_iff hglob, ← pathMatches_iff, ← mem_language_piecesRegex,
    ← Regex.test_iff]
  exact Option.some_inj

end Plain

/-! ## What a glob is meant to match and does not -/

theorem SegmentMatches.refl (segment : Text) :
    SegmentMatches segment segment := by
  induction segment with
  | nil => exact .nil
  | cons char segment ih =>
      by_cases hstar : char = '*'
      · subst hstar
        exact .star ['*'] ih
      · exact .char hstar ih

/-- A path that takes some segments for each `**`. -/
def deepPath (count : ℕ) (segs : List Text) : List Text :=
  segs.flatMap fun segment =>
    if segment = globstar then List.replicate count [] else [segment]

theorem segmentsMatch_deepPath (count : ℕ) (segs : List Text) :
    SegmentsMatch segs (deepPath count segs) := by
  induction segs with
  | nil => exact .nil
  | cons segment segs ih =>
      rw [deepPath, List.flatMap_cons]
      by_cases hdeep : segment = globstar
      · subst hdeep
        rw [if_pos rfl]
        exact .deep _ ih
      · rw [if_neg hdeep]
        exact .one hdeep (.refl segment) ih

theorem le_length_deepPath (count : ℕ) {segs : List Text}
    (hmem : globstar ∈ segs) : count ≤ (deepPath count segs).length := by
  obtain ⟨front, back, rfl⟩ := List.append_of_mem hmem
  rw [deepPath, List.flatMap_append, List.flatMap_cons, if_pos rfl,
    List.length_append, List.length_append, List.length_replicate]
  omega

theorem segments_deepPath (count : ℕ) (hmem : globstar ∈ segments glob) :
    segments (['/'].intercalate (deepPath (count + 1) (segments glob))) =
      deepPath (count + 1) (segments glob) := by
  refine List.splitOn_intercalate '/' ?_ ?_
  · intro text htext
    obtain ⟨segment, hsegment, htext⟩ := List.mem_flatMap.mp htext
    split at htext
    · rw [List.eq_of_mem_replicate htext]
      exact List.not_mem_nil
    · rw [List.mem_singleton.mp htext]
      exact not_mem_of_mem_segments hsegment
  · have hlength := le_length_deepPath (count + 1) hmem
    exact List.length_pos_iff.mp ((Nat.succ_pos count).trans_le hlength)

theorem length_segments (text : Text) :
    (segments text).length = text.count '/' + 1 := by
  induction text with
  | nil => rfl
  | cons char text ih =>
      by_cases hslash : char = '/'
      · subst hslash
        rw [segments_slash_cons, List.length_cons, ih, List.count_cons_self]
      · obtain ⟨head, tail, hsplit⟩ := exists_segments text
        have hcons : segments (char :: text) = (char :: head) :: tail :=
          Text.splitOn_cons_of_ne hsplit hslash
        rw [hsplit, List.length_cons] at ih
        rw [hcons, List.length_cons, ih, List.count_cons_of_ne hslash]

/-- No expression that a glob gives matches paths of any depth. -/
theorem not_globLaw_of_globstar (hmem : globstar ∈ segments glob) :
    ¬ GlobLaw glob := by
  intro hlaw
  have hdeep (count : ℕ) : ∃ regex, Regex.ofSource (globSource glob) =
      some regex ∧ count ≤ regex.singles := by
    have hmatches : SegmentsMatch (segments glob) (segments
        (['/'].intercalate (deepPath (count + 1) (segments glob)))) := by
      rw [segments_deepPath count hmem]
      exact segmentsMatch_deepPath _ _
    have htest := (hlaw _).mpr hmatches
    obtain ⟨regex, hregex, htest⟩ := Option.map_eq_some_iff.mp htest
    obtain ⟨n, hsource⟩ := exists_source glob
    have hcount := Regex.count_le_singles (hsource.ofSource hregex).2
      (Regex.test_iff.mp htest)
    have hlength := length_segments
      (['/'].intercalate (deepPath (count + 1) (segments glob)))
    rw [segments_deepPath count hmem] at hlength
    have hlong := le_length_deepPath (count + 1) hmem
    exact ⟨regex, hregex, by omega⟩
  obtain ⟨regex, hregex, -⟩ := hdeep 0
  obtain ⟨other, hother, hsingles⟩ := hdeep (regex.singles + 1)
  rw [hregex, Option.some_inj] at hother
  subst hother
  exact absurd hsingles (Nat.not_succ_le_self _)

theorem PathMatches.length_le (hmatches : PathMatches glob path) :
    (glob.countP fun char => decide (char ≠ '*')) ≤ path.length := by
  induction hmatches with
  | nil => exact le_rfl
  | @star glob path run _ _ ih =>
      rw [List.countP_cons_of_neg (by decide), List.length_append]
      omega
  | char hchar _ ih =>
      rw [List.countP_cons_of_pos (by simpa using hchar), List.length_cons]
      omega

theorem needed_lt (hmark : '?' ∈ glob) :
    needed glob < glob.countP fun char => decide (char ≠ '*') := by
  obtain ⟨front, back, rfl⟩ := List.append_of_mem hmark
  have hle (text : Text) :
      needed text ≤ text.countP fun char => decide (char ≠ '*') :=
    List.countP_mono_left fun char _ hchar => by
      simp only [decide_eq_true_eq] at hchar ⊢
      exact hchar.1
  have hfront := hle front
  have hback := hle back
  rw [needed] at hfront hback ⊢
  rw [List.countP_append, List.countP_append,
    List.countP_cons_of_neg (by decide), List.countP_cons_of_pos (by decide)]
  omega

/-- A question mark is taken for a quantifier. -/
theorem not_globLaw_of_mark (hglob : globstar ∉ segments glob)
    (hmark : '?' ∈ glob) : ¬ GlobLaw glob := by
  intro hlaw
  have hself : SegmentsMatch (segments glob) (segments glob) :=
    (segmentsMatch_iff hglob).mpr
      (List.forall₂_same.mpr fun segment _ => .refl segment)
  obtain ⟨regex, hregex, -⟩ :=
    Option.map_eq_some_iff.mp ((hlaw glob).mpr hself)
  have hsource := source_pieces glob
  rw [← globSource_eq hglob] at hsource
  obtain ⟨text, htext, hlength⟩ := regex.exists_shortest
  have htest : matchesGlob text glob = some true := by
    rw [matchesGlob, hregex, Option.map_some, Regex.test_iff.mpr htext]
  have hmatches := (hlaw text).mp htest
  rw [segmentsMatch_iff hglob, ← pathMatches_iff] at hmatches
  have hshort := (hsource.ofSource hregex).1
  have hlong := hmatches.length_le
  have hneeded := needed_lt hmark
  omega

/-- A glob matches as it is meant exactly if it has no `**` segment and no
question mark. -/
theorem globLaw_iff (glob : Text) :
    GlobLaw glob ↔ globstar ∉ segments glob ∧ '?' ∉ glob := by
  constructor
  · intro hlaw
    have hglob : globstar ∉ segments glob := fun hmem =>
      not_globLaw_of_globstar hmem hlaw
    exact ⟨hglob, fun hmark => not_globLaw_of_mark hglob hmark hlaw⟩
  · rintro ⟨hglob, hmark⟩
    exact globLaw_of_plain hglob hmark

theorem two_levels_below_src :
    matchesGlob "src/a/b/x.ts".toList "src/**/*.ts".toList = some false ∧
      SegmentsMatch (segments "src/**/*.ts".toList)
        (segments "src/a/b/x.ts".toList) ∧
      ¬ GlobLaw "src/**/*.ts".toList := by
  have hcode : matchesGlob "src/a/b/x.ts".toList "src/**/*.ts".toList =
      some false := by
    decide +kernel
  have hglob : segments "src/**/*.ts".toList =
      ["src".toList, globstar, '*' :: ".ts".toList] := by
    decide +kernel
  have hpath : segments "src/a/b/x.ts".toList =
      ["src".toList] ++ (["a".toList, "b".toList] ++
        [['x'] ++ ".ts".toList]) := by
    decide +kernel
  have hmatches : SegmentsMatch (segments "src/**/*.ts".toList)
      (segments "src/a/b/x.ts".toList) := by
    have hlast : SegmentsMatch ['*' :: ".ts".toList]
        [['x'] ++ ".ts".toList] :=
      .one (by decide +kernel) (.star ['x'] (.refl _)) .nil
    rw [hglob, hpath]
    exact .one (by decide +kernel) (.refl _)
      (.deep ["a".toList, "b".toList] hlast)
  refine ⟨hcode, hmatches, fun hlaw => ?_⟩
  rw [(hlaw _).mpr hmatches] at hcode
  cases hcode

end TsCommons.Hotreload
