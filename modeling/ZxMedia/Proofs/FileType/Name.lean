import Mathlib
import ZxMedia.FileType.Name

/-!
# What the extension of a file name is

A name ends in a component, which has no separators in it, and an extension is what
follows the last dot there. `extension?` and `dropExtension` look for that dot in ways
of their own: one takes the last of the parts between the separators, the other counts
from the last separator on. Each is specified by the component it ends in, whatever dots
and separators are in the name (`extension?_eq_some_iff`, `dropExtension_eq_iff`), and
the two specifications agree on the dot (`extension?_eq_some_iff_dropExtension`).
-/

namespace ZxMedia.FileName

/-- A name ends in a component: there is no separator in it, and one in front of it
unless it is all of the name. -/
def EndsIn (name component : List Char) : Prop :=
  ∃ path, name = path ++ component ∧ (∀ c ∈ component, isSeparator c = false) ∧
    ∀ c ∈ path.getLast?, isSeparator c = true

/-- The extension of a name is what follows the last dot of its last component, in lower
case. -/
def HasExtension (name extension : String) : Prop :=
  ∃ component stem last, EndsIn name.toList component ∧ component = stem ++ '.' :: last ∧
    '.' ∉ last ∧ extension = String.ofList (last.map Char.toLower)

/-- A character of an extension: neither a dot nor a separator. -/
def InExtension (c : Char) : Prop :=
  c ≠ '.' ∧ isSeparator c = false

/-! ## Positions -/

section

variable {kind : Char → Bool} {front back : List Char} {c : Char}

theorem lastIndex?_eq_none (others : ∀ d ∈ back, kind d = false) :
    lastIndex? kind back = none := by
  induction back with
  | nil => rfl
  | cons d back ih =>
      rw [List.forall_mem_cons] at others
      simp [lastIndex?, ih others.2, others.1]

theorem lastIndex?_append_cons (here : kind c = true)
    (others : ∀ d ∈ back, kind d = false) :
    lastIndex? kind (front ++ c :: back) = some front.length := by
  induction front with
  | nil => simp [lastIndex?, lastIndex?_eq_none others, here]
  | cons d front ih => simp [lastIndex?, ih]

end

theorem exists_last (kind : Char → Bool) (chars : List Char) :
    (∀ c ∈ chars, kind c = false) ∨
      ∃ front c back, chars = front ++ c :: back ∧ kind c = true ∧
        ∀ d ∈ back, kind d = false := by
  induction chars with
  | nil => simp
  | cons c chars ih =>
      obtain others | ⟨front, last, back, rfl, here, others⟩ := ih
      · cases own : kind c with
        | false => exact .inl (List.forall_mem_cons.mpr ⟨own, others⟩)
        | true => exact .inr ⟨[], c, chars, rfl, own, others⟩
      · exact .inr ⟨c :: front, last, back, rfl, here, others⟩

theorem exists_endsIn (name : List Char) : ∃ component, EndsIn name component := by
  obtain plain | ⟨front, separator, component, rfl, separates, plain⟩ :=
    exists_last isSeparator name
  · exact ⟨name, [], rfl, plain, by simp⟩
  · exact ⟨component, front ++ [separator], by simp, plain, by simp [separates]⟩

/-! ## The last component

The two ways to it: the last of the parts between the separators, and what is left of the name from
the position behind the last separator on. -/

theorem components_eq_singleton {component : List Char}
    (plain : ∀ c ∈ component, isSeparator c = false) :
    components component = [component] := by
  induction component with
  | nil => rfl
  | cons c component ih =>
      rw [List.forall_mem_cons] at plain
      simp [components, plain.1, ih plain.2]

theorem components_ne_nil (name : List Char) : components name ≠ [] := by
  cases name with
  | nil => simp [components]
  | cons c name =>
      unfold components
      split
      · simp
      · split <;> simp

theorem components_append_cons (front back : List Char) {c : Char}
    (separates : isSeparator c = true) :
    components (front ++ c :: back) = components front ++ components back := by
  induction front with
  | nil => simp [components, separates]
  | cons d front ih =>
      rw [List.cons_append, components, components, ih]
      cases parts : components front with
      | nil => exact absurd parts (components_ne_nil front)
      | cons first others => split <;> simp

section

variable {path component : List Char} (plain : ∀ c ∈ component, isSeparator c = false)
  (parted : ∀ c ∈ path.getLast?, isSeparator c = true)

include plain parted

theorem getLast?_components :
    (components (path ++ component)).getLast? = some component := by
  obtain rfl | ⟨front, separator, rfl⟩ := path.eq_nil_or_concat'
  · simp [components_eq_singleton plain]
  · have separates : isSeparator separator = true := parted separator (by simp)
    rw [List.append_assoc, List.singleton_append,
      components_append_cons front component separates,
      components_eq_singleton plain, List.getLast?_concat]

/-- The last component begins right behind the last separator, or with the name. -/
theorem componentStart_eq :
    ((lastIndex? isSeparator (path ++ component)).map (· + 1)).getD 0 = path.length := by
  obtain rfl | ⟨front, separator, rfl⟩ := path.eq_nil_or_concat'
  · simp [lastIndex?_eq_none plain]
  · have separates : isSeparator separator = true := parted separator (by simp)
    rw [List.append_assoc, List.singleton_append, lastIndex?_append_cons separates plain]
    simp

end

/-! ## The last dot -/

theorem lastDot_eq_none {chars : List Char} (undotted : '.' ∉ chars) :
    lastIndex? (· == '.') chars = none :=
  lastIndex?_eq_none (by simpa using fun c mem => ne_of_mem_of_not_mem mem undotted)

theorem lastDot_append_cons {stem last : List Char} (undotted : '.' ∉ last) :
    lastIndex? (· == '.') (stem ++ '.' :: last) = some stem.length :=
  lastIndex?_append_cons (by simp)
    (by simpa using fun c mem => ne_of_mem_of_not_mem mem undotted)

theorem exists_lastDot (chars : List Char) :
    '.' ∉ chars ∨ ∃ stem last, chars = stem ++ '.' :: last ∧ '.' ∉ last := by
  obtain others | ⟨stem, dot, last, rfl, here, others⟩ := exists_last (· == '.') chars
  · exact .inl fun mem => by simpa using others _ mem
  · obtain rfl : dot = '.' := by simpa using here
    exact .inr ⟨stem, last, rfl, fun mem => by simpa using others _ mem⟩

section

variable {name : String} {path component : List Char}
  (whole : name.toList = path ++ component)
  (plain : ∀ c ∈ component, isSeparator c = false)
  (parted : ∀ c ∈ path.getLast?, isSeparator c = true) (undotted : '.' ∉ component)

include whole plain parted undotted

theorem extension?_eq_none : extension? name = none := by
  simp [extension?, whole, getLast?_components plain parted, lastDot_eq_none undotted]

theorem dropExtension_eq_self : dropExtension name = name := by
  simp [dropExtension, whole, componentStart_eq plain parted, lastDot_eq_none undotted]

end

section

variable {name : String} {path stem last : List Char}
  (whole : name.toList = path ++ (stem ++ '.' :: last))
  (plain : ∀ c ∈ stem ++ '.' :: last, isSeparator c = false)
  (parted : ∀ c ∈ path.getLast?, isSeparator c = true) (undotted : '.' ∉ last)

include whole plain parted undotted

theorem extension?_eq_some :
    extension? name = some (String.ofList (last.map Char.toLower)) := by
  simp [extension?, whole, getLast?_components plain parted, lastDot_append_cons undotted,
    List.drop_append]

theorem dropExtension_eq_append : dropExtension name = String.ofList (path ++ stem) := by
  have front : (path ++ (stem ++ '.' :: last)).take (path.length + stem.length) =
      path ++ stem := by
    rw [← List.append_assoc, ← List.length_append, List.take_left]
  simp [dropExtension, whole, componentStart_eq plain parted,
    lastDot_append_cons undotted, front]

end

section

variable {name : String} {stem last : List Char}

/-- A dot that neither a dot nor a separator follows is in the last component, which
begins behind the last separator in front of it. -/
theorem exists_endsIn_append (stem : List Char) (plain : ∀ c ∈ last, InExtension c) :
    ∃ path own, stem = path ++ own ∧ (∀ c ∈ own ++ '.' :: last, isSeparator c = false) ∧
      (∀ c ∈ path.getLast?, isSeparator c = true) ∧ '.' ∉ last := by
  obtain ⟨own, path, parts, inside, parted⟩ := exists_endsIn stem
  have dot : isSeparator '.' = false := rfl
  refine ⟨path, own, parts, ?_, parted, fun mem => (plain _ mem).1 rfl⟩
  simpa [or_imp, forall_and, dot] using ⟨inside, fun c mem => (plain c mem).2⟩

theorem extension?_eq (whole : name.toList = stem ++ '.' :: last)
    (plain : ∀ c ∈ last, InExtension c) :
    extension? name = some (String.ofList (last.map Char.toLower)) := by
  obtain ⟨path, own, rfl, inside, parted, undotted⟩ := exists_endsIn_append stem plain
  exact extension?_eq_some (by rw [whole, List.append_assoc]) inside parted undotted

theorem dropExtension_eq (whole : name.toList = stem ++ '.' :: last)
    (plain : ∀ c ∈ last, InExtension c) : dropExtension name = String.ofList stem := by
  obtain ⟨path, own, rfl, inside, parted, undotted⟩ := exists_endsIn_append stem plain
  exact dropExtension_eq_append (by rw [whole, List.append_assoc]) inside parted undotted

theorem inExtension_of_plain (plain : ∀ c ∈ stem ++ '.' :: last, isSeparator c = false)
    (undotted : '.' ∉ last) : ∀ c ∈ last, InExtension c := by
  intro c mem
  exact ⟨ne_of_mem_of_not_mem mem undotted, plain c (by simp [mem])⟩

end

/-! ## Both functions -/

/-- The extension that is found is what follows the last dot of the last component. -/
theorem extension?_eq_some_iff {name extension : String} :
    extension? name = some extension ↔ HasExtension name extension := by
  constructor
  · intro found
    obtain ⟨component, path, whole, plain, parted⟩ := exists_endsIn name.toList
    obtain undotted | ⟨stem, last, rfl, undotted⟩ := exists_lastDot component
    · rw [extension?_eq_none whole plain parted undotted] at found
      cases found
    · rw [extension?_eq_some whole plain parted undotted] at found
      cases found
      exact ⟨_, stem, last, ⟨path, whole, plain, parted⟩, rfl, undotted, rfl⟩
  · rintro ⟨_, stem, last, ⟨path, whole, plain, parted⟩, rfl, undotted, rfl⟩
    exact extension?_eq_some whole plain parted undotted

/-- What is left of a name stands in front of the last dot of the last component, or is
all of the name when there is no dot in it. -/
theorem dropExtension_eq_iff {name base : String} :
    dropExtension name = base ↔
      (∃ last, name.toList = base.toList ++ '.' :: last ∧ ∀ c ∈ last, InExtension c) ∨
      base = name ∧ ∃ component, EndsIn name.toList component ∧ '.' ∉ component := by
  constructor
  · rintro rfl
    obtain ⟨component, path, whole, plain, parted⟩ := exists_endsIn name.toList
    obtain undotted | ⟨stem, last, rfl, undotted⟩ := exists_lastDot component
    · exact .inr ⟨dropExtension_eq_self whole plain parted undotted, component,
        ⟨path, whole, plain, parted⟩, undotted⟩
    · refine .inl ⟨last, ?_, inExtension_of_plain plain undotted⟩
      rw [dropExtension_eq_append whole plain parted undotted,
        String.toList_ofList, whole, List.append_assoc]
  · rintro (⟨last, whole, plain⟩ | ⟨rfl, component, ⟨path, whole, plain, parted⟩, undotted⟩)
    · rw [dropExtension_eq whole plain, String.ofList_toList]
    · exact dropExtension_eq_self whole plain parted undotted

/-- Both functions cut a name at the same dot: the extension is what follows it behind
the name without its extension. -/
theorem extension?_eq_some_iff_dropExtension {name extension : String} :
    extension? name = some extension ↔
      ∃ last, name.toList = (dropExtension name).toList ++ '.' :: last ∧
        (∀ c ∈ last, InExtension c) ∧
        extension = String.ofList (last.map Char.toLower) := by
  constructor
  · intro found
    obtain ⟨_, stem, last, ⟨path, whole, plain, parted⟩, rfl, undotted, rfl⟩ :=
      extension?_eq_some_iff.mp found
    refine ⟨last, ?_, inExtension_of_plain plain undotted, rfl⟩
    rw [dropExtension_eq_append whole plain parted undotted, String.toList_ofList, whole,
      List.append_assoc]
  · rintro ⟨last, whole, plain, rfl⟩
    exact extension?_eq whole plain

end ZxMedia.FileName
