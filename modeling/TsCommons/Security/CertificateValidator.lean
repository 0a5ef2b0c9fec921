import TsCommons.Foundations.InsertionMap
import TsCommons.Foundations.Text

/-!
# Distinguished names of certificates

`parseDN` splits a distinguished name at every comma, and each part at its
first equals sign.  It knows no escapes: a value rendered with some is cut at
its first comma and keeps its backslashes.  What is cut off is read as
attributes whose names hold a backslash.
-/

namespace TsCommons.Security

open Foundations Text

namespace CertificateValidator

/-! ## The parser -/

/-- The key and the value in a part of the distinguished name. -/
def field (part : Text) : Option (Text × Text) :=
  match part.idxOf? '=' with
  | some eq =>
      if 0 < eq then some (trim (part.take eq), trim (part.drop (eq + 1)))
      else none
  | none => none

def proto : Text := ['_', '_', 'p', 'r', 'o', 't', 'o', '_', '_']

/-- `result[key] = val`: writing a text to `__proto__` has no effect. -/
def assign (result : InsertionMap Text Text) (key val : Text) :
    InsertionMap Text Text :=
  if key = proto then result else result.set key val

def addPart (result : InsertionMap Text Text) (part : Text) :
    InsertionMap Text Text :=
  match field part with
  | some (key, val) => assign result key val
  | none => result

def parseDN (dn : Text) : InsertionMap Text Text :=
  (dn.splitOn ',').foldl addPart .empty

/-! ## Rendering -/

/-- The characters that have an escape. -/
def special : List Char := [',', '=', '+', '"', '\\']

def escapeChar (char : Char) : Text :=
  if char ∈ special then ['\\', char] else [char]

def escape (value : Text) : Text := value.flatMap escapeChar

/-- Letters and digits. -/
def IsName (name : Text) : Prop :=
  name ≠ [] ∧ ∀ char ∈ name, char.isAlphanum = true

instance IsName.decidable (name : Text) : Decidable (IsName name) :=
  @instDecidableAnd _ _ inferInstance (List.decidableBAll _ name)

/-- Nothing in the value has an escape. -/
def Plain (value : Text) : Prop := ∀ char ∈ value, char ∉ special

instance Plain.decidable (value : Text) : Decidable (Plain value) :=
  List.decidableBAll _ value

structure Attribute where
  name : Text
  value : Text
  isName : IsName name
  value_ne_nil : value ≠ []
  trimmed : Trimmed value

def Attribute.render (attr : Attribute) : Text :=
  attr.name ++ '=' :: escape attr.value

/-- What stands before the first comma of the escaped value. -/
def Attribute.cut (attr : Attribute) : Text :=
  trim ((escape attr.value).takeWhile (· ≠ ','))

structure DistinguishedName where
  attrs : List Attribute
  distinct : (attrs.map (·.name)).Nodup

def DistinguishedName.render (dn : DistinguishedName) : Text :=
  [','].intercalate (dn.attrs.map (·.render))

variable {part key val before after value name : Text} {parts : List Text}
  {char : Char} {attr : Attribute} {dn : DistinguishedName}

/-! ## Fields -/

theorem field_eq_some_iff :
    field part = some (key, val) ↔
      ∃ before after, part = before ++ '=' :: after ∧ '=' ∉ before ∧
        before ≠ [] ∧ trim before = key ∧ trim after = val := by
  constructor
  · intro hfield
    rw [field] at hfield
    split at hfield
    next eq heq =>
      obtain ⟨hlt, hchar, hfirst⟩ := List.idxOf?_eq_some_iff.mp heq
      split at hfield
      next hpos =>
        obtain ⟨rfl, rfl⟩ := Prod.mk.inj (Option.some.inj hfield)
        refine ⟨part.take eq, part.drop (eq + 1), ?_, ?_, ?_, rfl, rfl⟩
        · rw [← hchar, List.getElem_cons_drop hlt, List.take_append_drop]
        · intro hmem
          obtain ⟨index, hindex, hget⟩ := List.mem_take_iff_getElem.mp hmem
          exact hfirst index (by omega) hget
        · intro hnil
          have hlength : (part.take eq).length = eq :=
            List.length_take_of_le (Nat.le_of_lt hlt)
          rw [hnil, List.length_nil] at hlength
          omega
      next => cases hfield
    next => cases hfield
  · rintro ⟨before, after, rfl, hbefore, hne, rfl, rfl⟩
    have hindex : (before ++ '=' :: after).idxOf? '=' =
        some before.length := by
      apply List.idxOf?_eq_some_iff.mpr
      refine ⟨by simp, by simp, ?_⟩
      intro index hlt hget
      rw [List.getElem_append_left hlt] at hget
      exact hbefore (hget ▸ List.getElem_mem hlt)
    rw [field, hindex]
    simp [List.length_pos_iff.mpr hne]

theorem field_append (hbefore : '=' ∉ before) (hne : before ≠ []) :
    field (before ++ '=' :: after) = some (trim before, trim after) :=
  field_eq_some_iff.mpr ⟨before, after, rfl, hbefore, hne, rfl, rfl⟩

theorem mem_of_get_foldl
    (hget : (parts.foldl addPart .empty).get key = some val) :
    ∃ part ∈ parts, field part = some (key, val) := by
  induction parts using List.reverseRecOn with
  | nil => cases hget
  | append_singleton parts last ih =>
      have hold : (parts.foldl addPart .empty).get key = some val →
          ∃ part ∈ parts ++ [last], field part = some (key, val) := by
        intro hget
        obtain ⟨part, hpart, hfield⟩ := ih hget
        exact ⟨part, List.mem_append_left _ hpart, hfield⟩
      rw [List.foldl_concat, addPart] at hget
      split at hget
      next found content hlast =>
        rw [assign] at hget
        split at hget
        · exact hold hget
        · rw [InsertionMap.get_set] at hget
          split at hget
          · rename_i heq
            refine ⟨last, List.mem_append_right _ List.mem_cons_self, ?_⟩
            rw [hlast, heq, Option.some.inj hget]
          · exact hold hget
      next => exact hold hget

theorem exists_get_foldl (hpart : part ∈ parts)
    (hfield : field part = some (key, val)) (hkey : key ≠ proto) :
    ∃ last, (parts.foldl addPart .empty).get key = some last := by
  induction parts using List.reverseRecOn with
  | nil => cases hpart
  | append_singleton parts last ih =>
      rw [List.foldl_concat, addPart]
      rcases List.mem_append.mp hpart with hold | hnew
      · obtain ⟨found, hget⟩ := ih hold
        split
        · rw [assign]
          split
          · exact ⟨found, hget⟩
          · rw [InsertionMap.get_set]
            split
            · exact ⟨_, rfl⟩
            · exact ⟨found, hget⟩
        · exact ⟨found, hget⟩
      · rw [← List.mem_singleton.mp hnew, hfield]
        refine ⟨val, ?_⟩
        dsimp only
        rw [assign, if_neg hkey, InsertionMap.get_set_self]

/-! ## Escapes -/

theorem escape_cons :
    escape (char :: value) = escapeChar char ++ escape value :=
  List.flatMap_cons

theorem escapeChar_of_mem (hspecial : char ∈ special) :
    escapeChar char = ['\\', char] :=
  if_pos hspecial

theorem escapeChar_of_not_mem (hplain : char ∉ special) :
    escapeChar char = [char] :=
  if_neg hplain

theorem escape_of_plain (hplain : Plain value) :
    escape value = value := by
  induction value with
  | nil => rfl
  | cons first rest ih =>
      obtain ⟨hfirst, hrest⟩ := List.forall_mem_cons.mp hplain
      rw [escape_cons, escapeChar_of_not_mem hfirst, ih hrest,
        List.singleton_append]

theorem mem_of_mem_escape (hchar : char ∈ escape value) (hne : char ≠ '\\') :
    char ∈ value := by
  obtain ⟨source, hsource, hmem⟩ := List.mem_flatMap.mp hchar
  rw [escapeChar] at hmem
  split at hmem
  · rcases List.mem_cons.mp hmem with heq | hmem
    · exact absurd heq hne
    · rwa [List.mem_singleton.mp hmem]
  · rwa [List.mem_singleton.mp hmem]

/-- Every special character adds a backslash. -/
theorem count_escape (value : Text) :
    (escape value).count '\\' =
      value.count '\\' + value.countP (· ∈ special) := by
  induction value with
  | nil => rfl
  | cons first rest ih =>
      rw [escape_cons, List.count_append, ih, List.count_cons]
      by_cases hspecial : first ∈ special
      · rw [escapeChar_of_mem hspecial, List.count_cons_self,
          List.count_singleton, List.countP_cons_of_pos (by simpa)]
        omega
      · rw [escapeChar_of_not_mem hspecial, List.count_singleton,
          List.countP_cons_of_neg (by simpa)]
        omega

/-! ## Guarded texts -/

/-- Every equals sign comes after some backslash. -/
def Guarded (text : Text) : Prop :=
  ∀ before after, text = before ++ '=' :: after → '\\' ∈ before

theorem Guarded.nil : Guarded [] := by
  intro before after hsplit
  simp at hsplit

theorem Guarded.backslash (text : Text) : Guarded ('\\' :: text) := by
  intro before after hsplit
  cases before with
  | nil => exact absurd (List.cons.inj hsplit).1 (by decide)
  | cons first rest =>
      rw [(List.cons.inj hsplit).1]
      exact List.mem_cons_self

theorem Guarded.cons (hguarded : Guarded part) (hne : char ≠ '=') :
    Guarded (char :: part) := by
  intro before after hsplit
  cases before with
  | nil => exact absurd (List.cons.inj hsplit).1 hne
  | cons first rest =>
      exact List.mem_cons_of_mem _
        (hguarded rest after (List.cons.inj hsplit).2)

/-- The parts of a text that has its special characters escaped. -/
theorem guarded_of_mem_splitOn_escape
    (hpart : part ∈ (escape value).splitOn ',') : Guarded part := by
  induction value generalizing part with
  | nil =>
      rw [List.mem_singleton.mp hpart]
      exact Guarded.nil
  | cons first rest ih =>
      obtain ⟨head, tail, hsplit⟩ :=
        List.exists_cons_of_ne_nil (List.splitOn_ne_nil ',' (escape rest))
      have htail : part ∈ tail → Guarded part := fun hmem =>
        ih (hsplit ▸ List.mem_cons_of_mem head hmem)
      by_cases hspecial : first ∈ special
      · rw [escape_cons, escapeChar_of_mem hspecial] at hpart
        by_cases hcomma : first = ','
        · have hcut : ('\\' :: ',' :: escape rest).splitOn ',' =
              ['\\'] :: (escape rest).splitOn ',' :=
            List.splitOn_append_cons_self_of_not_mem
              (by decide : ',' ∉ ['\\']) (escape rest)
          rw [hcomma, List.cons_append, List.singleton_append, hcut,
            List.mem_cons] at hpart
          rcases hpart with rfl | hlater
          · exact Guarded.backslash []
          · exact ih hlater
        · rw [List.cons_append, List.singleton_append,
            splitOn_cons_of_ne (splitOn_cons_of_ne hsplit hcomma) (by decide),
            List.mem_cons] at hpart
          rcases hpart with rfl | hlater
          · exact Guarded.backslash _
          · exact htail hlater
      · have hcomma : first ≠ ',' := by
          rintro rfl
          exact hspecial (by decide)
        have hequals : first ≠ '=' := by
          rintro rfl
          exact hspecial (by decide)
        rw [escape_cons, escapeChar_of_not_mem hspecial,
          List.singleton_append, splitOn_cons_of_ne hsplit hcomma,
          List.mem_cons] at hpart
        rcases hpart with rfl | hlater
        · exact Guarded.cons (ih (hsplit ▸ List.mem_cons_self)) hequals
        · exact htail hlater

/-- The key in a guarded part is no name. -/
theorem Guarded.not_isName (hguarded : Guarded part)
    (hfield : field part = some (key, val)) : ¬ IsName key := by
  obtain ⟨before, after, hsplit, -, -, rfl, -⟩ := field_eq_some_iff.mp hfield
  intro hname
  have hmem : '\\' ∈ trim before :=
    (mem_trim_iff (by decide)).mpr (hguarded before after hsplit)
  exact absurd (hname.2 _ hmem) (by decide)

/-! ## Reading back what was rendered -/

theorem IsName.not_mem (hname : IsName name) (hchar : char.isAlphanum = false) :
    char ∉ name := by
  intro hmem
  rw [hname.2 char hmem] at hchar
  cases hchar

theorem IsName.trim_eq (hname : IsName name) : trim name = name :=
  trimmed_of_forall fun char hchar =>
    isWhiteSpace_of_isAlphanum (hname.2 char hchar)

theorem IsName.ne_proto (hname : IsName name) : name ≠ proto := by
  rintro rfl
  exact absurd (hname.2 '_' (by decide)) (by decide)

namespace Attribute

theorem exists_splitOn_render (attr : Attribute) :
    ∃ tail, attr.render.splitOn ',' =
        (attr.name ++ '=' :: (escape attr.value).takeWhile (· ≠ ',')) ::
          tail ∧
      ∀ part ∈ tail, Guarded part := by
  obtain ⟨tail, hsplit⟩ := exists_splitOn_eq (escape attr.value) ','
  refine ⟨tail, ?_, ?_⟩
  · exact splitOn_append_of_not_mem
      (splitOn_cons_of_ne hsplit (by decide))
      (attr.isName.not_mem (by decide))
  · intro part hpart
    exact guarded_of_mem_splitOn_escape
      (hsplit ▸ List.mem_cons_of_mem _ hpart)

theorem field_head (attr : Attribute) :
    field (attr.name ++ '=' :: (escape attr.value).takeWhile (· ≠ ',')) =
      some (attr.name, attr.cut) := by
  rw [field_append (attr.isName.not_mem (by decide)) attr.isName.1,
    attr.isName.trim_eq, cut]

/-- No part of a rendered attribute has a name but that of the attribute. -/
theorem eq_of_field (hpart : part ∈ attr.render.splitOn ',')
    (hfield : field part = some (key, val)) (hname : IsName key) :
    key = attr.name ∧ val = attr.cut := by
  obtain ⟨tail, hsplit, htail⟩ := attr.exists_splitOn_render
  rw [hsplit, List.mem_cons] at hpart
  rcases hpart with rfl | hlater
  · rw [attr.field_head] at hfield
    obtain ⟨rfl, rfl⟩ := Prod.mk.inj (Option.some.inj hfield)
    exact ⟨rfl, rfl⟩
  · exact absurd hname ((htail part hlater).not_isName hfield)

theorem splitOn_render_of_plain
    (hplain : Plain attr.value) :
    attr.render.splitOn ',' = [attr.name ++ '=' :: attr.value] := by
  rw [render, escape_of_plain hplain]
  apply List.splitOn_eq_singleton
  rw [List.mem_append, List.mem_cons, not_or, not_or]
  exact ⟨attr.isName.not_mem (by decide), by decide,
    fun hcomma => hplain _ hcomma (by decide)⟩

theorem cut_eq_value_iff (attr : Attribute) :
    attr.cut = attr.value ↔ Plain attr.value := by
  constructor
  · intro heq
    by_cases hcomma : ',' ∈ attr.value
    · have hnone : ',' ∉ attr.cut := by
        rw [cut, mem_trim_iff (by decide)]
        intro hmem
        exact absurd (List.mem_takeWhile_imp hmem) (by decide)
      exact absurd (heq ▸ hcomma) hnone
    · have hwhole : (escape attr.value).takeWhile (· ≠ ',') =
          escape attr.value := by
        apply List.takeWhile_eq_self_iff.mpr
        intro char hchar
        apply decide_eq_true
        rintro rfl
        exact hcomma (mem_of_mem_escape hchar (by decide))
      have hcount := congrArg (List.count '\\') heq
      rw [cut, hwhole, count_trim (by decide), count_escape,
        Nat.add_eq_left, List.countP_eq_zero] at hcount
      intro char hchar hspecial
      exact hcount char hchar (decide_eq_true hspecial)
  · intro hplain
    have hwhole : attr.value.takeWhile (· ≠ ',') = attr.value := by
      apply List.takeWhile_eq_self_iff.mpr
      intro char hchar
      apply decide_eq_true
      rintro rfl
      exact hplain _ hchar (by decide)
    rw [cut, escape_of_plain hplain, hwhole]
    exact attr.trimmed

end Attribute

namespace DistinguishedName

theorem exists_mem_of_get
    (hget : (parseDN dn.render).get key = some val) :
    ∃ attr ∈ dn.attrs, ∃ part ∈ attr.render.splitOn ',',
      field part = some (key, val) := by
  obtain ⟨part, hpart, hfield⟩ := mem_of_get_foldl hget
  by_cases hattrs : dn.attrs = []
  · rw [render, hattrs, List.map_nil, List.intercalate_nil] at hpart
    rw [List.mem_singleton.mp hpart] at hfield
    cases hfield
  · rw [render, splitOn_intercalate_eq_flatMap (by simpa using hattrs),
      List.mem_flatMap] at hpart
    obtain ⟨text, htext, hpart⟩ := hpart
    obtain ⟨attr, hattr, rfl⟩ := List.mem_map.mp htext
    exact ⟨attr, hattr, part, hpart, hfield⟩

theorem exists_get_of_mem (hattr : attr ∈ dn.attrs) :
    ∃ last, (parseDN dn.render).get attr.name = some last := by
  obtain ⟨tail, hsplit, -⟩ := attr.exists_splitOn_render
  refine exists_get_foldl ?_ attr.field_head attr.isName.ne_proto
  rw [render, splitOn_intercalate_eq_flatMap
    (by simpa using List.ne_nil_of_mem hattr), List.mem_flatMap]
  exact ⟨attr.render, List.mem_map_of_mem hattr,
    hsplit ▸ List.mem_cons_self⟩

/-- The entry of a name is what is left of the value of its attribute. -/
theorem get_iff (hname : IsName name) :
    (parseDN dn.render).get name = some val ↔
      ∃ attr ∈ dn.attrs, attr.name = name ∧ attr.cut = val := by
  have hforward : ∀ found,
      (parseDN dn.render).get name = some found →
      ∃ attr ∈ dn.attrs, attr.name = name ∧ attr.cut = found := by
    intro found hget
    obtain ⟨attr, hattr, part, hpart, hfield⟩ := exists_mem_of_get hget
    obtain ⟨hkey, hcut⟩ := attr.eq_of_field hpart hfield hname
    exact ⟨attr, hattr, hkey.symm, hcut.symm⟩
  constructor
  · exact hforward val
  · rintro ⟨attr, hattr, rfl, rfl⟩
    obtain ⟨found, hget⟩ := exists_get_of_mem hattr
    obtain ⟨other, hother, hsame, rfl⟩ := hforward found hget
    rw [hget, List.inj_on_of_nodup_map dn.distinct hother hattr hsame]

end DistinguishedName

/-- `parseDN` returns exactly the attributes with their values. -/
def ReadsBack (dn : DistinguishedName) : Prop :=
  ∀ name value, (parseDN dn.render).get name = some value ↔
    ∃ attr ∈ dn.attrs, attr.name = name ∧ attr.value = value

/-- Each attribute is read back as its value up to the first comma, with the
escapes left in, and no other name gets an entry.  What is read back is what was
rendered if and only if no value needs an escape. -/
theorem parseDN_render (dn : DistinguishedName) :
    (∀ attr ∈ dn.attrs,
      (parseDN dn.render).get attr.name = some attr.cut) ∧
    (∀ name, IsName name → (∀ attr ∈ dn.attrs, attr.name ≠ name) →
      (parseDN dn.render).get name = none) ∧
    (ReadsBack dn ↔ ∀ attr ∈ dn.attrs, Plain attr.value) := by
  have hcut : ∀ attr ∈ dn.attrs,
      (parseDN dn.render).get attr.name = some attr.cut :=
    fun attr hattr =>
      (DistinguishedName.get_iff attr.isName).mpr ⟨attr, hattr, rfl, rfl⟩
  refine ⟨hcut, ?_, ?_, ?_⟩
  · intro name hname hnone
    rw [Option.eq_none_iff_forall_ne_some]
    intro val hget
    obtain ⟨attr, hattr, heq, -⟩ :=
      (DistinguishedName.get_iff hname).mp hget
    exact hnone attr hattr heq
  · intro hexact attr hattr
    have hvalue : (parseDN dn.render).get attr.name = some attr.value :=
      (hexact attr.name attr.value).mpr ⟨attr, hattr, rfl, rfl⟩
    rw [hcut attr hattr] at hvalue
    exact attr.cut_eq_value_iff.mp (Option.some.inj hvalue)
  · intro hplain name value
    constructor
    · intro hget
      obtain ⟨attr, hattr, part, hpart, hfield⟩ :=
        DistinguishedName.exists_mem_of_get hget
      rw [Attribute.splitOn_render_of_plain (hplain attr hattr),
        List.mem_singleton] at hpart
      rw [hpart, field_append (attr.isName.not_mem (by decide))
        attr.isName.1, attr.isName.trim_eq, attr.trimmed] at hfield
      obtain ⟨rfl, rfl⟩ := Prod.mk.inj (Option.some.inj hfield)
      exact ⟨attr, hattr, rfl, rfl⟩
    · rintro ⟨attr, hattr, rfl, rfl⟩
      rw [hcut attr hattr,
        attr.cut_eq_value_iff.mpr (hplain attr hattr)]

/-- The organization `a,CN=root` pretends to be another common name. -/
def pretender : DistinguishedName where
  attrs :=
    [{ name := ['C', 'N']
       value := ['a', 'p', 'p']
       isName := by decide
       value_ne_nil := by decide
       trimmed := by decide },
     { name := ['O']
       value := ['a', ',', 'C', 'N', '=', 'r', 'o', 'o', 't']
       isName := by decide
       value_ne_nil := by decide
       trimmed := by decide }]
  distinct := by decide

theorem parseDN_render_pretender :
    (parseDN pretender.render).get ['C', 'N'] = some ['a', 'p', 'p'] ∧
    (parseDN pretender.render).get ['O'] = some ['a', '\\'] ∧
    (parseDN pretender.render).get ['C'] = none ∧
    ¬ ReadsBack pretender := by
  obtain ⟨hcut, hnone, hexact⟩ := parseDN_render pretender
  refine ⟨?_, ?_, ?_, ?_⟩
  · exact hcut _ List.mem_cons_self
  · exact hcut _ (List.mem_cons_of_mem _ List.mem_cons_self)
  · exact hnone ['C'] (by decide) (by decide)
  · rw [hexact]
    decide

/-- `CN` has the value `Smith, John`. -/
def smithJohn : DistinguishedName where
  attrs :=
    [{ name := ['C', 'N']
       value := ['S', 'm', 'i', 't', 'h', ',', ' ', 'J', 'o', 'h', 'n']
       isName := by decide
       value_ne_nil := by decide
       trimmed := by decide }]
  distinct := by decide

/-- The common name is cut at its comma. -/
theorem parseDN_cuts_commonName :
    smithJohn.render = ['C', 'N', '=', 'S', 'm', 'i', 't', 'h', '\\', ',',
      ' ', 'J', 'o', 'h', 'n'] ∧
    (parseDN smithJohn.render).get ['C', 'N'] =
      some ['S', 'm', 'i', 't', 'h', '\\'] ∧
    ¬ ReadsBack smithJohn := by
  have hget : (parseDN smithJohn.render).get ['C', 'N'] =
      some ['S', 'm', 'i', 't', 'h', '\\'] := by
    decide
  refine ⟨by decide, hget, ?_⟩
  intro hexact
  obtain ⟨attr, hattr, -, hvalue⟩ := (hexact _ _).mp hget
  rw [smithJohn, List.mem_singleton] at hattr
  rw [hattr] at hvalue
  exact absurd hvalue (by decide)

end CertificateValidator

end TsCommons.Security
