import Configurator.Library.Text

namespace Configurator

section Framed

variable {α : Type} {edge inner : α → Bool} {text front back : List α}

/-- The text begins and ends with an edge and consists of inner letters. -/
structure Framed (edge inner : α → Bool) (text : List α) : Prop where
  first : ∃ letter ∈ text.head?, edge letter = true
  last : ∃ letter ∈ text.getLast?, edge letter = true
  all : ∀ letter ∈ text, inner letter = true

instance : Decidable (Framed edge inner text) :=
  decidable_of_iff ((∃ letter ∈ text.head?, edge letter = true) ∧ (∃ letter ∈ text.getLast?, edge letter = true) ∧
      ∀ letter ∈ text, inner letter = true)
    ⟨fun parts => ⟨parts.1, parts.2.1, parts.2.2⟩, fun framed => ⟨framed.first, framed.last, framed.all⟩⟩

theorem Framed.ne_nil (framed : Framed edge inner text) : text ≠ [] := by
  rintro rfl
  obtain ⟨_, none, _⟩ := framed.first
  cases none

theorem Framed.mono {edges inners : α → Bool} (framed : Framed edge inner text)
    (outside : ∀ letter, edge letter = true → edges letter = true)
    (inside : ∀ letter, inner letter = true → inners letter = true) : Framed edges inners text where
  first := by
    obtain ⟨letter, first, own⟩ := framed.first
    exact ⟨letter, first, outside letter own⟩
  last := by
    obtain ⟨letter, last, own⟩ := framed.last
    exact ⟨letter, last, outside letter own⟩
  all letter member := inside letter (framed.all letter member)

/-- Two texts of which the one brings the first letter and the other the last. -/
theorem framed_append (first : ∃ letter ∈ front.head?, edge letter = true)
    (last : ∃ letter ∈ back.getLast?, edge letter = true) (earlier : ∀ letter ∈ front, inner letter = true)
    (later : ∀ letter ∈ back, inner letter = true) : Framed edge inner (front ++ back) where
  first := by
    obtain ⟨letter, first, own⟩ := first
    refine ⟨letter, ?_, own⟩
    rw [Option.mem_def] at first ⊢
    rw [List.head?_append, first, Option.some_or]
  last := by
    obtain ⟨letter, last, own⟩ := last
    refine ⟨letter, ?_, own⟩
    rw [Option.mem_def] at last ⊢
    rw [List.getLast?_append, last, Option.some_or]
  all letter member := by
    rcases List.mem_append.mp member with inFront | inBack
    · exact earlier letter inFront
    · exact later letter inBack

theorem mem_intercalate {sep letter : α} {parts : List (List α)} (member : letter ∈ [sep].intercalate parts) :
    letter = sep ∨ ∃ part ∈ parts, letter ∈ part := by
  induction parts with
  | nil => cases member
  | cons part rest ih =>
    cases rest with
    | nil =>
      rw [List.intercalate_singleton] at member
      exact Or.inr ⟨part, List.mem_cons_self, member⟩
    | cons second rest =>
      rw [List.intercalate_cons_cons, List.mem_append, List.mem_append, List.mem_singleton] at member
      rcases member with (own | between) | later
      · exact Or.inr ⟨part, List.mem_cons_self, own⟩
      · exact Or.inl between
      · refine (ih later).imp_right fun ⟨other, listed, inside⟩ => ?_
        exact ⟨other, List.mem_cons_of_mem _ listed, inside⟩

theorem framed_intercalate {sep : α} (between : inner sep = true) {parts : List (List α)} (some : parts ≠ [])
    (framed : ∀ part ∈ parts, Framed edge inner part) : Framed edge inner ([sep].intercalate parts) := by
  induction parts with
  | nil => exact absurd rfl some
  | cons part rest ih =>
    obtain ⟨own, others⟩ := List.forall_mem_cons.mp framed
    cases rest with
    | nil =>
      rw [List.intercalate_singleton]
      exact own
    | cons second rest =>
      have later := ih (List.cons_ne_nil _ _) others
      rw [List.intercalate_cons_cons, List.append_assoc]
      refine framed_append own.first ?_ own.all ?_
      · obtain ⟨letter, last, edges⟩ := later.last
        refine ⟨letter, ?_, edges⟩
        rw [Option.mem_def] at last ⊢
        rw [List.getLast?_append, last, Option.some_or]
      · exact List.forall_mem_cons.mpr ⟨between, later.all⟩

theorem length_intercalate_congr (one other : α) (parts : List (List α)) :
    ([one].intercalate parts).length = ([other].intercalate parts).length := by
  induction parts with
  | nil => rfl
  | cons part rest ih =>
    cases rest with
    | nil => rfl
    | cons second rest =>
      rw [List.intercalate_cons_cons, List.intercalate_cons_cons]
      simp only [List.length_append, List.length_singleton, ih]

end Framed

def lowerAlphanumeric (letter : Char) : Bool := letter.isLower || letter.isDigit

/-- What may stand inside a DNS label. -/
def dashedLetter (letter : Char) : Bool := lowerAlphanumeric letter || letter == '-'

/-- What may stand inside a label value or the name part of a key. -/
def innerLetter (letter : Char) : Bool :=
  letter.isAlphanum || letter == '-' || letter == '_' || letter == '.'

/-- A DNS-1123 subdomain, the name of an object. -/
structure DnsName (name : String) : Prop where
  length : name.length ≤ 253
  labels : ∀ label ∈ split name '.', Framed lowerAlphanumeric dashedLetter label.toList

/-- A value of a label, unless it is empty, and a key without its prefix. -/
structure NamePart (text : String) : Prop where
  length : text.length ≤ 63
  framed : Framed Char.isAlphanum innerLetter text.toList

def LabelValue (value : String) : Prop := value = "" ∨ NamePart value

/-- A name, or a subdomain and a name. -/
def QualifiedParts : List String → Prop
  | [name] => NamePart name
  | [domain, name] => DnsName domain ∧ NamePart name
  | _ => False

/-- The key of a label or an annotation; a slash ends the subdomain. -/
def QualifiedName (key : String) : Prop := QualifiedParts (split key '/')

instance (name : String) : Decidable (DnsName name) :=
  decidable_of_iff (name.length ≤ 253 ∧
      ∀ label ∈ split name '.', Framed lowerAlphanumeric dashedLetter label.toList)
    ⟨fun parts => ⟨parts.1, parts.2⟩, fun domain => ⟨domain.length, domain.labels⟩⟩

instance (text : String) : Decidable (NamePart text) :=
  decidable_of_iff (text.length ≤ 63 ∧ Framed Char.isAlphanum innerLetter text.toList)
    ⟨fun parts => ⟨parts.1, parts.2⟩, fun part => ⟨part.length, part.framed⟩⟩

instance (value : String) : Decidable (LabelValue value) := inferInstanceAs (Decidable (_ ∨ _))

instance : (parts : List String) → Decidable (QualifiedParts parts)
  | [] => inferInstanceAs (Decidable False)
  | [name] => inferInstanceAs (Decidable (NamePart name))
  | [domain, name] => inferInstanceAs (Decidable (DnsName domain ∧ NamePart name))
  | _ :: _ :: _ :: _ => inferInstanceAs (Decidable False)

instance (key : String) : Decidable (QualifiedName key) := inferInstanceAs (Decidable (QualifiedParts _))

theorem isAlphanum_of_lower {letter : Char} (lower : lowerAlphanumeric letter = true) : letter.isAlphanum = true := by
  have alpha : letter.isAlpha = (letter.isUpper || letter.isLower) := rfl
  simp only [lowerAlphanumeric, Bool.or_eq_true] at lower
  simp only [Char.isAlphanum, alpha, Bool.or_eq_true]
  exact lower.imp_left Or.inr

theorem innerLetter_of_dashed {letter : Char} (dashed : dashedLetter letter = true) : innerLetter letter = true := by
  simp only [dashedLetter, Bool.or_eq_true] at dashed
  simp only [innerLetter, Bool.or_eq_true]
  exact Or.inl (Or.inl (dashed.imp_left isAlphanum_of_lower))

namespace DnsName

variable {name : String}

theorem framed (domain : DnsName name) : Framed Char.isAlphanum innerLetter name.toList := by
  rw [← intercalate_split name '.']
  refine framed_intercalate rfl ?_ ?_
  · simpa using split_ne_nil name '.'
  · intro part member
    obtain ⟨label, listed, rfl⟩ := List.mem_map.mp member
    exact (domain.labels label listed).mono (fun _ => isAlphanum_of_lower) fun _ => innerLetter_of_dashed

/-- The limit is all that keeps a name from being a label value. -/
theorem namePart_iff (domain : DnsName name) : NamePart name ↔ name.length ≤ 63 :=
  ⟨NamePart.length, fun short => ⟨short, domain.framed⟩⟩

theorem labelValue_iff (domain : DnsName name) : LabelValue name ↔ name.length ≤ 63 := by
  have filled : name ≠ "" := by
    rintro rfl
    exact domain.framed.ne_nil rfl
  rw [LabelValue, or_iff_right filled, domain.namePart_iff]

end DnsName

theorem dnsName_iff_of_absent {name : String} (absent : '.' ∉ name.toList) :
    DnsName name ↔ name.length ≤ 253 ∧ Framed lowerAlphanumeric dashedLetter name.toList := by
  have labels := split_of_absent absent
  constructor
  · intro domain
    exact ⟨domain.length, domain.labels name (by simp [labels])⟩
  · intro ⟨length, framed⟩
    refine ⟨length, fun label member => ?_⟩
    rw [labels, List.mem_singleton] at member
    exact member ▸ framed

theorem qualifiedName_iff_of_absent {key : String} (absent : '/' ∉ key.toList) :
    QualifiedName key ↔ NamePart key := by
  rw [QualifiedName, split_of_absent absent, QualifiedParts]

theorem QualifiedName.letters {key : String} (qualified : QualifiedName key) :
    ∀ letter ∈ key.toList, letter = '/' ∨ innerLetter letter = true := by
  have parts : ∀ part ∈ split key '/', ∀ letter ∈ part.toList, innerLetter letter = true := by
    unfold QualifiedName at qualified
    generalize split key '/' = parts at qualified
    match parts, qualified with
    | [name], own => simpa using own.framed.all
    | [domain, name], ⟨first, second⟩ => simpa using ⟨first.framed.all, second.framed.all⟩
  intro letter member
  rw [← intercalate_split key '/'] at member
  refine (mem_intercalate member).imp_right fun ⟨letters, listed, inside⟩ => ?_
  obtain ⟨part, inParts, rfl⟩ := List.mem_map.mp listed
  exact parts part inParts letter inside

end Configurator
