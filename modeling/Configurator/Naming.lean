import Configurator.Library.Text

namespace Configurator

def letters : List Char := "abcdefghijklmnopqrstuvwxyz0123456789".toList

/-- What `rand.Intn(len(letters))` gives call after call once the generator is seeded. -/
abbrev Draws := Nat → Fin letters.length

/-- `RandomSequence(n)` over a seeded generator. -/
def randomSequence (draws : Draws) (n : Nat) : String :=
  String.ofList ((List.range n).map fun position => letters.get (draws position))

/-- The characters that `NameValidation` keeps: `[a-z0-9-]`. -/
def allowed (letter : Char) : Bool :=
  ('a' ≤ letter && letter ≤ 'z') || ('0' ≤ letter && letter ≤ '9') || letter == '-'

/-- `ReplaceAllString` of `[^a-z0-9-]+`: every maximal run of other characters
becomes one `s`. `inRun` says that the run before this position has been replaced. -/
def replaceRuns : Bool → List Char → List Char
  | _, [] => []
  | inRun, letter :: rest =>
    if allowed letter then letter :: replaceRuns false rest
    else if inRun then replaceRuns true rest
    else 's' :: replaceRuns true rest

/-- `NameValidation(name)`. -/
def nameValidation (name : String) : String :=
  String.ofList (replaceRuns false name.toList)

/-- The name is over `a-z`, `0-9` and `-`. -/
def Plain (name : String) : Prop :=
  ∀ letter ∈ name.toList, allowed letter = true

instance (name : String) : Decidable (Plain name) :=
  List.decidableBAll (fun letter => allowed letter = true) name.toList

private theorem replaceRuns_eq_self {text : List Char} (plain : ∀ letter ∈ text, allowed letter = true)
    (inRun : Bool) : replaceRuns inRun text = text := by
  induction text generalizing inRun with
  | nil => rfl
  | cons letter rest ih =>
    simp only [List.forall_mem_cons] at plain
    simp [replaceRuns, plain.1, ih plain.2]

private theorem allowed_replaceRuns (inRun : Bool) (text : List Char) :
    ∀ letter ∈ replaceRuns inRun text, allowed letter = true := by
  induction text generalizing inRun with
  | nil => simp [replaceRuns]
  | cons first rest ih =>
    simp only [replaceRuns]
    split
    · rename_i keep
      simpa [keep] using ih false
    · split
      · exact ih true
      · simpa [show allowed 's' = true by decide] using ih true

theorem replaceRuns_append {back : List Char} (plain : ∀ letter ∈ back, allowed letter = true) (front : List Char)
    (inRun : Bool) : replaceRuns inRun (front ++ back) = replaceRuns inRun front ++ back := by
  induction front generalizing inRun with
  | nil => exact replaceRuns_eq_self plain inRun
  | cons letter rest ih =>
    rw [List.cons_append, replaceRuns, replaceRuns]
    split
    · rw [ih, List.cons_append]
    · split
      · exact ih true
      · rw [ih, List.cons_append]

private theorem replaceRuns_plain_append {front : List Char} (plain : ∀ letter ∈ front, allowed letter = true)
    (filled : front ≠ []) (back : List Char) (inRun : Bool) :
    replaceRuns inRun (front ++ back) = front ++ replaceRuns false back := by
  induction front generalizing inRun with
  | nil => exact absurd rfl filled
  | cons letter rest ih =>
    obtain ⟨first, others⟩ := List.forall_mem_cons.mp plain
    rw [List.cons_append, replaceRuns, if_pos first, List.cons_append]
    cases rest with
    | nil => rfl
    | cons second rest => rw [ih others (List.cons_ne_nil _ _)]

theorem replaceRuns_intercalate {sep : Char} (other : allowed sep = false) {parts : List (List Char)}
    (plain : ∀ part ∈ parts, part ≠ [] ∧ ∀ letter ∈ part, allowed letter = true) (inRun : Bool) :
    replaceRuns inRun ([sep].intercalate parts) = ['s'].intercalate parts := by
  induction parts generalizing inRun with
  | nil => rfl
  | cons part rest ih =>
    obtain ⟨⟨filled, own⟩, others⟩ := List.forall_mem_cons.mp plain
    cases rest with
    | nil =>
      rw [List.intercalate_singleton, List.intercalate_singleton]
      exact replaceRuns_eq_self own inRun
    | cons second rest =>
      rw [List.intercalate_cons_cons, List.intercalate_cons_cons, List.append_assoc, List.append_assoc,
        replaceRuns_plain_append own filled, List.singleton_append, List.singleton_append, replaceRuns,
        if_neg (by rw [other]; exact Bool.false_ne_true), if_neg Bool.false_ne_true, ih others]

theorem nameValidation_of_plain {name : String} (plain : Plain name) : nameValidation name = name := by
  simp [nameValidation, replaceRuns_eq_self plain]

theorem plain_nameValidation (name : String) : Plain (nameValidation name) := by
  simpa [Plain, nameValidation] using allowed_replaceRuns false name.toList

theorem nameValidation_eq_self {name : String} : nameValidation name = name ↔ Plain name :=
  ⟨fun same => same ▸ plain_nameValidation name, nameValidation_of_plain⟩

theorem plain_append {left right : String} :
    Plain (left ++ right) ↔ Plain left ∧ Plain right := by
  simp [Plain, or_imp, forall_and]

theorem plain_randomSequence (draws : Draws) (n : Nat) : Plain (randomSequence draws n) := by
  intro letter member
  simp only [randomSequence, String.toList_ofList, List.mem_map] at member
  obtain ⟨position, _, rfl⟩ := member
  have every : letters.all allowed = true := by decide
  exact List.all_eq_true.mp every _ (List.get_mem _ _)

@[simp] theorem length_randomSequence (draws : Draws) (n : Nat) :
    (randomSequence draws n).toList.length = n := by
  simp [randomSequence]

theorem randomSequence_ne_empty (draws : Draws) (n : Nat) : randomSequence draws (n + 1) ≠ "" := by
  intro empty
  simpa [empty] using length_randomSequence draws (n + 1)

/-- The last dash parts a name from a version without one. -/
theorem dashed_inj_of_absent {left right first second : String} (noFirst : '-' ∉ first.toList)
    (noSecond : '-' ∉ second.toList) (same : left ++ "-" ++ first = right ++ "-" ++ second) : left = right := by
  have parts : left.toList ++ ('-' :: first.toList) = right.toList ++ ('-' :: second.toList) := by
    simpa using congrArg String.toList same
  rcases List.append_eq_append_iff.mp parts with ⟨between, front, back⟩ | ⟨between, front, back⟩
  · cases between with
    | nil => exact String.toList_inj.mp (by simpa using front.symm)
    | cons letter between =>
      obtain ⟨_, back⟩ := List.cons.inj back
      exact absurd (back ▸ List.mem_append_right _ List.mem_cons_self) noFirst
  · cases between with
    | nil => exact String.toList_inj.mp (by simpa using front)
    | cons letter between =>
      obtain ⟨_, back⟩ := List.cons.inj back
      exact absurd (back ▸ List.mem_append_right _ List.mem_cons_self) noSecond

theorem dash_notMem_randomSequence (draws : Draws) (n : Nat) : '-' ∉ (randomSequence draws n).toList := by
  intro member
  simp only [randomSequence, String.toList_ofList, List.mem_map] at member
  obtain ⟨position, _, same⟩ := member
  have undashed : '-' ∉ letters := by decide
  exact undashed (same ▸ List.get_mem letters (draws position))

end Configurator
