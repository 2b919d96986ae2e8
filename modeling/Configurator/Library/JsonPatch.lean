import Configurator.Library.Text
import Mathlib.Logic.Function.Basic

namespace Configurator

/-- A JSON value without lists and numbers. -/
inductive Json where
  | text (value : String)
  | object (members : String → Option Json)

namespace Json

/-- The value at a path of member names. -/
def get? : List String → Json → Option Json
  | [], value => some value
  | name :: rest, .object members => (members name).bind (get? rest)
  | _ :: _, .text _ => none

/-- The document with the value at a path changed, if there is one and it can be changed. -/
def modify? (change : Json → Option Json) : List String → Json → Option Json
  | [], value => change value
  | name :: rest, .object members => do
    let child ← members name
    let changed ← modify? change rest child
    some (.object (Function.update members name (some changed)))
  | _ :: _, .text _ => none

/-- `add` and `replace`: the member is there afterwards, whether or not it was before. -/
def set? (name : String) (value : Json) : Json → Option Json
  | .object members => some (.object (Function.update members name (some value)))
  | .text _ => none

/-- `remove`: the member has to be there. -/
def remove? (name : String) : Json → Option Json
  | .object members =>
    if (members name).isSome then some (.object (Function.update members name none)) else none
  | .text _ => none

section Modify

variable {change other : Json → Option Json} {path : List String} {document value : Json}

@[simp] theorem get?_nil (value : Json) : value.get? [] = some value := rfl

@[simp] theorem modify?_nil (change : Json → Option Json) (value : Json) : value.modify? change [] = change value :=
  rfl

theorem modify?_congr (there : document.get? path = some value) (same : change value = other value) :
    document.modify? change path = document.modify? other path := by
  induction path generalizing document with
  | nil =>
    obtain rfl : document = value := Option.some.inj there
    exact same
  | cons name rest ih =>
    cases document with
    | text => cases there
    | object members =>
      obtain ⟨child, found, below⟩ := Option.bind_eq_some_iff.mp there
      simp [modify?, found, ih below]

theorem modify?_self (there : document.get? path = some value) :
    document.modify? (fun _ => some value) path = some document := by
  induction path generalizing document with
  | nil =>
    obtain rfl : document = value := Option.some.inj there
    rfl
  | cons name rest ih =>
    cases document with
    | text => cases there
    | object members =>
      obtain ⟨child, found, below⟩ := Option.bind_eq_some_iff.mp there
      have same : Function.update members name (some child) = members := by
        rw [← found, Function.update_eq_self]
      simp [modify?, found, ih below, same]

/-- Two changes of one value are one change. -/
theorem modify?_bind (change other : Json → Option Json) (path : List String) (document : Json) :
    (document.modify? change path).bind (modify? other path) =
      document.modify? (fun value => (change value).bind other) path := by
  induction path generalizing document with
  | nil => rfl
  | cons name rest ih =>
    cases document with
    | text => rfl
    | object members =>
      cases found : members name with
      | none => simp [modify?, found]
      | some child =>
        have below := ih child
        cases changed : child.modify? change rest with
        | none =>
          rw [changed, Option.bind_none] at below
          simp [modify?, found, changed, ← below]
        | some next =>
          rw [changed, Option.bind_some] at below
          simp [modify?, found, changed, ← below]

theorem modify?_append (change : Json → Option Json) (path rest : List String) (document : Json) :
    document.modify? change (path ++ rest) = document.modify? (modify? change rest) path := by
  induction path generalizing document with
  | nil => rfl
  | cons name path ih =>
    cases document with
    | text => rfl
    | object members => simp [modify?, ih]

theorem modify?_eq_none (there : document.get? path = some value) :
    document.modify? change path = none ↔ change value = none := by
  induction path generalizing document with
  | nil =>
    obtain rfl : document = value := Option.some.inj there
    exact Iff.rfl
  | cons name rest ih =>
    cases document with
    | text => cases there
    | object members =>
      obtain ⟨child, found, below⟩ := Option.bind_eq_some_iff.mp there
      rw [← ih below]
      cases changed : child.modify? change rest <;> simp [modify?, found, changed]

/-- Different changes make different documents. -/
theorem modify?_inj (there : document.get? path = some value)
    (same : document.modify? change path = document.modify? other path) : change value = other value := by
  induction path generalizing document with
  | nil =>
    obtain rfl : document = value := Option.some.inj there
    exact same
  | cons name rest ih =>
    cases document with
    | text => cases there
    | object members =>
      obtain ⟨child, found, below⟩ := Option.bind_eq_some_iff.mp there
      apply ih below
      cases first : child.modify? change rest with
      | none =>
        cases second : child.modify? other rest with
        | none => rfl
        | some next => simp [modify?, found, first, second] at same
      | some last =>
        cases second : child.modify? other rest with
        | none => simp [modify?, found, first, second] at same
        | some next =>
          simp only [modify?, found, first, second, Option.bind_eq_bind, Option.bind_some, Option.some.injEq,
            Json.object.injEq] at same
          simpa using congrFun same name

theorem get?_modify? {after : Json} (there : document.get? path = some value)
    (changed : document.modify? change path = some after) : after.get? path = change value := by
  induction path generalizing document after with
  | nil =>
    obtain rfl : document = value := Option.some.inj there
    exact changed.symm
  | cons name rest ih =>
    cases document with
    | text => cases there
    | object members =>
      obtain ⟨child, found, below⟩ := Option.bind_eq_some_iff.mp there
      simp only [modify?, found, Option.bind_eq_bind, Option.bind_some] at changed
      obtain ⟨next, made, same⟩ := Option.bind_eq_some_iff.mp changed
      obtain rfl := Option.some.inj same
      simpa [get?] using ih below made

end Modify

/-- Changes one after the other; one that cannot be made rejects all. -/
def changeAll : List (Json → Option Json) → Json → Option Json
  | [], value => some value
  | change :: rest, value => (change value).bind (changeAll rest)

/-- The members after all these have been set. -/
def writeAll : List (String × Json) → (String → Option Json) → String → Option Json
  | [], members => members
  | (name, value) :: rest, members => writeAll rest (Function.update members name (some value))

/-- The members after all these have been removed, each of which has to be there. -/
def removeAll : List String → (String → Option Json) → Option (String → Option Json)
  | [], members => some members
  | name :: rest, members =>
    if (members name).isSome then removeAll rest (Function.update members name none) else none

section ChangeAll

variable {path : List String} {document value : Json} {members : String → Option Json} {name : String}

@[simp] theorem changeAll_nil (value : Json) : changeAll [] value = some value := rfl

@[simp] theorem changeAll_cons (change : Json → Option Json) (rest : List (Json → Option Json)) (value : Json) :
    changeAll (change :: rest) value = (change value).bind (changeAll rest) := rfl

theorem changeAll_append (first second : List (Json → Option Json)) (value : Json) :
    changeAll (first ++ second) value = (changeAll first value).bind (changeAll second) := by
  induction first generalizing value with
  | nil => rfl
  | cons change rest ih =>
    simp only [List.cons_append, changeAll_cons, Option.bind_assoc]
    exact congrArg _ (funext ih)

theorem changeAll_modify? (changes : List (Json → Option Json)) (there : document.get? path = some value) :
    changeAll (changes.map fun change => modify? change path) document = document.modify? (changeAll changes) path := by
  induction changes generalizing document value with
  | nil =>
    induction path generalizing document with
    | nil => rfl
    | cons name rest ih =>
      cases document with
      | text => cases there
      | object members =>
        obtain ⟨child, found, below⟩ := Option.bind_eq_some_iff.mp there
        have same : child.modify? (changeAll []) rest = some child := (ih below).symm
        simp [modify?, found, same]
  | cons change rest ih =>
    rw [List.map_cons, changeAll_cons]
    have together : (document.modify? change path).bind (modify? (changeAll rest) path) =
        document.modify? (changeAll (change :: rest)) path := modify?_bind change (changeAll rest) path document
    rw [← together]
    cases changed : document.modify? change path with
    | none => rfl
    | some after =>
      cases made : change value with
      | none =>
        rw [(modify?_eq_none there).mpr made] at changed
        cases changed
      | some next =>
        have now : after.get? path = some next := (get?_modify? there changed).trans made
        exact ih now

theorem changeAll_set (entries : List (String × Json)) (members : String → Option Json) :
    changeAll (entries.map fun entry => set? entry.1 entry.2) (.object members) =
      some (.object (writeAll entries members)) := by
  induction entries generalizing members with
  | nil => rfl
  | cons entry rest ih => exact ih _

theorem writeAll_of_notMem {entries : List (String × Json)} (absent : name ∉ entries.map Prod.fst) :
    writeAll entries members name = members name := by
  induction entries generalizing members with
  | nil => rfl
  | cons entry rest ih =>
    rw [List.map_cons, List.mem_cons, not_or] at absent
    rw [writeAll, ih absent.2, Function.update_of_ne absent.1]

theorem writeAll_of_mem {entries : List (String × Json)} (distinct : (entries.map Prod.fst).Nodup)
    (member : (name, value) ∈ entries) : writeAll entries members name = some value := by
  induction entries generalizing members with
  | nil => cases member
  | cons entry rest ih =>
    rw [List.map_cons, List.nodup_cons] at distinct
    rcases List.mem_cons.mp member with same | later
    · subst same
      rw [writeAll, writeAll_of_notMem distinct.1, Function.update_self]
    · exact ih distinct.2 later

/-- What is set in the end has been set, or it was there before. -/
theorem writeAll_cases {entries : List (String × Json)} (found : writeAll entries members name = some value) :
    name ∈ entries.map Prod.fst ∨ members name = some value := by
  by_cases member : name ∈ entries.map Prod.fst
  · exact Or.inl member
  · rw [writeAll_of_notMem member] at found
    exact Or.inr found

theorem changeAll_remove (names : List String) (members : String → Option Json) :
    changeAll (names.map remove?) (.object members) = (removeAll names members).map .object := by
  induction names generalizing members with
  | nil => rfl
  | cons first rest ih =>
    rw [List.map_cons, changeAll_cons, removeAll, remove?]
    split
    · exact ih _
    · rfl

theorem removeAll_of_there {names : List String} (distinct : names.Nodup)
    (there : ∀ name ∈ names, (members name).isSome) :
    removeAll names members = some fun name => if name ∈ names then none else members name := by
  induction names generalizing members with
  | nil => simp [removeAll]
  | cons first rest ih =>
    rw [List.nodup_cons] at distinct
    have others : ∀ name ∈ rest, (Function.update members first none name).isSome := by
      intro name member
      have other : name ≠ first := by
        intro same
        exact distinct.1 (same ▸ member)
      rw [Function.update_of_ne other]
      exact there name (List.mem_cons_of_mem _ member)
    rw [removeAll, if_pos (there first List.mem_cons_self), ih distinct.2 others]
    congr 1
    funext name
    by_cases same : name = first
    · subst same
      simp
    · simp [same]

theorem there_of_removeAll {names : List String} {after : String → Option Json}
    (removed : removeAll names members = some after) (found : after name = some value) :
    members name = some value := by
  induction names generalizing members with
  | nil =>
    obtain rfl := Option.some.inj removed
    exact found
  | cons first rest ih =>
    rw [removeAll] at removed
    split at removed
    · have still := ih removed
      by_cases same : name = first
      · subst same
        rw [Function.update_self] at still
        cases still
      · rwa [Function.update_of_ne same] at still
    · cases removed

/-- What is removed first has to be there. -/
theorem there_of_removeAll_cons {rest : List String} {after : String → Option Json}
    (removed : removeAll (name :: rest) members = some after) : ∃ value, members name = some value := by
  rw [removeAll] at removed
  split at removed
  · rename_i there
    exact Option.isSome_iff_exists.mp there
  · cases removed

end ChangeAll

end Json

namespace Pointer

/-- `~1` stands for a slash and `~0` for a tilde. -/
def unescapeLetters : List Char → List Char
  | '~' :: '1' :: rest => '/' :: unescapeLetters rest
  | '~' :: '0' :: rest => '~' :: unescapeLetters rest
  | letter :: rest => letter :: unescapeLetters rest
  | [] => []

def unescape (token : String) : String := String.ofList (unescapeLetters token.toList)

/-- The names that a pointer goes through, with the last one apart. -/
def parse? (pointer : String) : Option (List String × String) :=
  match split pointer '/' with
  | "" :: token :: rest =>
    some (((token :: rest).dropLast).map unescape, unescape ((token :: rest).getLast (by simp)))
  | _ => none

/-- The token spells a name as it is. -/
def Literal (token : String) : Prop := contains token "~0" = false ∧ contains token "~1" = false

instance (token : String) : Decidable (Literal token) := inferInstanceAs (Decidable (_ ∧ _))

theorem length_unescapeLetters_le (letters : List Char) :
    (unescapeLetters letters).length ≤ letters.length := by
  fun_induction unescapeLetters letters with
  | case1 rest ih | case2 rest ih =>
    simp only [List.length_cons]
    omega
  | case3 letter rest _ _ ih =>
    simp only [List.length_cons]
    omega
  | case4 => exact Nat.le_refl 0

private theorem not_prefix {first second letter : Char} {rest : List Char}
    (other : ∀ tail, letter = first → rest = second :: tail → False) : ¬ [first, second] <+: letter :: rest := by
  intro starts
  obtain ⟨tail, same⟩ := starts
  obtain ⟨same, below⟩ := List.cons.inj same
  exact other tail same.symm below.symm

theorem unescapeLetters_eq_self {letters : List Char} :
    unescapeLetters letters = letters ↔ ¬ ['~', '0'] <:+: letters ∧ ¬ ['~', '1'] <:+: letters := by
  fun_induction unescapeLetters letters with
  | case1 rest ih =>
    have shorter := length_unescapeLetters_le rest
    constructor
    · intro same
      have lengths := congrArg List.length same
      simp only [List.length_cons] at lengths
      omega
    · intro absent
      exact absurd (List.prefix_append ['~', '1'] rest).isInfix absent.2
  | case2 rest ih =>
    have shorter := length_unescapeLetters_le rest
    constructor
    · intro same
      have lengths := congrArg List.length same
      simp only [List.length_cons] at lengths
      omega
    · intro absent
      exact absurd (List.prefix_append ['~', '0'] rest).isInfix absent.1
  | case3 letter rest noSlash noTilde ih =>
    have one : ¬ ['~', '1'] <+: letter :: rest := not_prefix noSlash
    have zero : ¬ ['~', '0'] <+: letter :: rest := not_prefix noTilde
    simp only [List.cons.injEq, true_and, List.infix_cons_iff, ih, one, zero, false_or]
  | case4 => simp

theorem length_unescapeLetters_lt {letters : List Char} (other : unescapeLetters letters ≠ letters) :
    (unescapeLetters letters).length < letters.length := by
  fun_induction unescapeLetters letters with
  | case1 rest ih | case2 rest ih =>
    have shorter := length_unescapeLetters_le rest
    simp only [List.length_cons]
    omega
  | case3 letter rest _ _ ih =>
    have below := ih fun same => other (congrArg _ same)
    simp only [List.length_cons]
    omega
  | case4 => exact absurd rfl other

theorem unescape_eq_self {token : String} : unescape token = token ↔ Literal token := by
  have letters : unescape token = token ↔ unescapeLetters token.toList = token.toList := by
    rw [unescape, ← String.toList_inj, String.toList_ofList]
  rw [letters, unescapeLetters_eq_self, Literal, ← Bool.not_eq_true, ← Bool.not_eq_true, contains_iff, contains_iff]
  exact Iff.rfl

theorem length_unescape_lt {token : String} (other : ¬ Literal token) :
    (unescape token).toList.length < token.toList.length := by
  rw [unescape, String.toList_ofList]
  apply length_unescapeLetters_lt
  intro same
  exact other (unescape_eq_self.mp (String.toList_inj.mp (by rw [unescape, String.toList_ofList, same])))

/-- A token without a tilde spells a name as it is. -/
theorem literal_of_absent {token : String} (absent : '~' ∉ token.toList) : Literal token := by
  have none : ∀ other : Char, ¬ ['~', other] <:+: token.toList := by
    intro other inside
    exact absent (inside.subset List.mem_cons_self)
  constructor
  · rw [← Bool.not_eq_true, contains_iff]
    exact none '0'
  · rw [← Bool.not_eq_true, contains_iff]
    exact none '1'

theorem parse?_append {front first token : String} {parents : List String}
    (goes : split front '/' = "" :: first :: parents) (absent : '/' ∉ token.toList) :
    parse? (front ++ "/" ++ token) = some ((first :: parents).map unescape, unescape token) := by
  have tokens : split (front ++ "/" ++ token) '/' = "" :: first :: (parents ++ [token]) := by
    have appended := @split_append front token '/' absent
    rw [goes] at appended
    exact appended
  have front : (first :: (parents ++ [token])).dropLast = first :: parents :=
    @List.dropLast_concat _ (first :: parents) token
  simp [parse?, tokens, front]

end Pointer

end Configurator
