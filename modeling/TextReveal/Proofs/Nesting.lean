import TextReveal.Validation
/-!
Nesting. Region tags are brackets with names on them, and a text is valid exactly if all its tags
are known and those brackets are balanced.
-/
namespace TextReveal

/-- A tag that opens or closes a region. -/
structure Bracket where
  name : String
  closing : Bool
  deriving DecidableEq, Repr

def Tag.bracket (t : Tag) : Bracket := ⟨t.name, t.closing⟩

namespace Registry

/-- Whether the handler of a tag, if there is one, has regions. -/
def opensRegion (r : Registry) (t : Tag) : Bool := (r.get? t.name).any (·.isRegion)

def brackets (r : Registry) (tags : List Tag) : List Bracket :=
  (tags.filter r.opensRegion).map Tag.bracket

end Registry

namespace Bracket

/-- Nothing at all, or a region with balanced brackets inside and behind it. -/
inductive Balanced : List Bracket → Prop
  | nil : Balanced []
  | region (name : String) {inside behind : List Bracket} (hinside : Balanced inside)
    (hbehind : Balanced behind) :
    Balanced (⟨name, false⟩ :: inside ++ ⟨name, true⟩ :: behind)

/-- Brackets that close the regions `opened`, the innermost first, and all that they open. -/
inductive Unwinds : List String → List Bracket → Prop
  | done : Unwinds [] []
  | opening {name : String} {opened : List String} {rest : List Bracket}
    (h : Unwinds (name :: opened) rest) : Unwinds opened (⟨name, false⟩ :: rest)
  | closing {name : String} {opened : List String} {rest : List Bracket}
    (h : Unwinds opened rest) : Unwinds (name :: opened) (⟨name, true⟩ :: rest)

/-- The same, with what is inside each region kept apart from what closes it. -/
def Closes : List String → List Bracket → Prop
  | [], brackets => Balanced brackets
  | name :: outer, brackets => ∃ inside rest, brackets = inside ++ ⟨name, true⟩ :: rest ∧
    Balanced inside ∧ Closes outer rest

variable {name : String} {opened : List String} {brackets inside rest : List Bracket}

theorem unwinds_nil_iff : Unwinds opened [] ↔ opened = [] := by
  constructor
  · intro h
    cases h
    rfl
  · rintro rfl
    exact .done

theorem unwinds_opening_iff :
    Unwinds opened (⟨name, false⟩ :: rest) ↔ Unwinds (name :: opened) rest := by
  constructor
  · intro h
    cases h with
    | opening h => exact h
  · exact .opening

theorem unwinds_closing_iff : Unwinds opened (⟨name, true⟩ :: rest) ↔
    ∃ outer, opened = name :: outer ∧ Unwinds outer rest := by
  constructor
  · intro h
    cases h with
    | closing h => exact ⟨_, rfl, h⟩
  · rintro ⟨outer, rfl, h⟩
    exact .closing h

/-- Balanced brackets leave the open regions as they are. -/
theorem Balanced.unwinds_append (h : Balanced brackets) (hrest : Unwinds opened rest) :
    Unwinds opened (brackets ++ rest) := by
  induction h generalizing opened rest with
  | nil => exact hrest
  | region name _ _ ihinside ihbehind =>
    simp only [List.cons_append, List.append_assoc]
    exact .opening (ihinside (.closing (ihbehind hrest)))

/-- A whole region in front. -/
theorem Closes.region (hinside : Balanced inside) (h : Closes opened rest) :
    Closes opened (⟨name, false⟩ :: inside ++ ⟨name, true⟩ :: rest) := by
  cases opened with
  | nil => exact .region name hinside h
  | cons outer opened =>
    obtain ⟨inside', rest', rfl, hinside', hrest'⟩ := h
    exact ⟨⟨name, false⟩ :: inside ++ ⟨name, true⟩ :: inside', rest', by simp,
      .region name hinside hinside', hrest'⟩

theorem Unwinds.closes (h : Unwinds opened brackets) : Closes opened brackets := by
  induction h with
  | done => exact .nil
  | closing _ ih => exact ⟨[], _, rfl, .nil, ih⟩
  | opening _ ih =>
    obtain ⟨inside, rest, rfl, hinside, hrest⟩ := ih
    exact hrest.region hinside

theorem unwinds_iff_balanced : Unwinds [] brackets ↔ Balanced brackets := by
  constructor
  · exact Unwinds.closes
  · intro h
    simpa using h.unwinds_append .done

/-- The open regions behind a bracket, if a closing one is taken to close the innermost. -/
def next (opened : List String) (b : Bracket) : List String :=
  if b.closing then opened.tail else b.name :: opened

/-- The regions that brackets leave open, the innermost first. -/
def unclosed (brackets : List Bracket) : List String := brackets.foldl next []

theorem unclosed_concat (b : Bracket) :
    unclosed (brackets ++ [b]) = next (unclosed brackets) b := by
  simp [unclosed]

theorem Unwinds.foldl (h : Unwinds opened (brackets ++ rest)) :
    Unwinds (brackets.foldl next opened) rest := by
  induction brackets generalizing opened with
  | nil => exact h
  | cons b brackets ih => cases h with | opening h => exact ih h | closing h => exact ih h

end Bracket

open TextReveal.Bracket

namespace Validation

@[simp] theorem isValid_addError (issue : Issue) (v : Validation) :
    (v.addError issue).isValid = false := rfl

@[simp] theorem isValid_addWarning (issue : Issue) (v : Validation) :
    (v.addWarning issue).isValid = v.isValid := rfl

end Validation

namespace Registry
variable {r : Registry} {t : Tag} {tags : List Tag}

theorem has_eq_isSome (r : Registry) (name : String) : r.has name = (r.get? name).isSome := by
  simp [has, get?]

theorem has_iff {name : String} : r.has name ↔ (r.get? name).isSome := by
  rw [has_eq_isSome]

theorem brackets_of_get?_eq_none (h : r.get? t.name = none) :
    r.brackets (t :: tags) = r.brackets tags := by
  simp [brackets, opensRegion, h]

theorem brackets_of_get?_eq_some {h : Handler} (hget : r.get? t.name = some h) :
    r.brackets (t :: tags) =
      if h.isRegion then t.bracket :: r.brackets tags else r.brackets tags := by
  by_cases hregion : h.isRegion <;> simp [brackets, opensRegion, hget, hregion]

/-- The validator goes on behind an error, but what it finds then can make up for none. -/
theorem isValid_check (r : Registry) (opened : List (String × Nat)) (tags : List Tag) :
    (r.check opened tags).isValid ↔
      (∀ t ∈ tags, r.has t.name) ∧ Unwinds (opened.map Prod.fst) (r.brackets tags) := by
  induction tags generalizing opened with
  | nil => simp [check, Validation.isValid, brackets, unwinds_nil_iff]
  | cons t tags ih =>
    rw [check.eq_def, List.forall_mem_cons, has_iff]
    cases hget : r.get? t.name with
    | none => simp [hget]
    | some h =>
      rw [brackets_of_get?_eq_some hget]
      cases hregion : h.isRegion with
      | false => cases hclosing : t.closing <;> simp [hget, hregion, hclosing, ih]
      | true =>
        cases hclosing : t.closing with
        | false => simp [hget, hregion, hclosing, Tag.bracket, ih, unwinds_opening_iff]
        | true =>
          cases opened with
          | nil => simp [hget, hregion, hclosing, Tag.bracket, unwinds_closing_iff]
          | cons innermost outer =>
            by_cases hname : innermost.1 = t.name <;>
              simp [hget, hregion, hclosing, Tag.bracket, unwinds_closing_iff, hname, ih]

/-- A text is valid if and only if its tags are known and its region tags are balanced. -/
theorem isValid_iff_balanced (r : Registry) (text : String) :
    (r.validate text).isValid ↔
      (∀ t ∈ Tag.lex text, r.has t.name) ∧ Balanced (r.brackets (Tag.lex text)) := by
  rw [validate, isValid_check, List.map_nil, unwinds_iff_balanced]

end Registry
end TextReveal
