import Keldra.AtomicProgram.Template

/-!
# Expansion of path templates

The parts of a template are its text cut at the braces, and an expansion
replaces the fields part by part.  A value brings no separator, so every `/`
of an expansion stands where the literal text of the template has it.
-/

namespace Keldra.AtomicProgram

open Foundation

variable {parts : List TemplatePart} {values : OrdMap String String} {pieces : List (List Char)}

/-- The template text a part was read from. -/
def TemplatePart.source : TemplatePart → List Char
  | .literal text => text
  | .field name => '{' :: name ++ ['}']

/-- The literal text of a part. -/
def TemplatePart.literalText : TemplatePart → List Char
  | .literal text => text
  | .field _ => []

/-- The text a scan has read since the last completed part. -/
def TemplateMode.source : TemplateMode → List Char
  | .inLiteral text => text
  | .inField name => '{' :: name

/-- A non-empty value without separators, braces and NUL. -/
def SafeSegment (value : List Char) : Prop :=
  value ≠ [] ∧ '/' ∉ value ∧ '{' ∉ value ∧ '}' ∉ value ∧ '\x00' ∉ value

/-- The piece of an expansion that a part stands for. -/
def TemplatePart.Expands (values : OrdMap String String) : TemplatePart → List Char → Prop
  | .literal text, piece => piece = text
  | .field name, piece =>
    values.get? (String.ofList name) = some (String.ofList piece) ∧ SafeSegment piece

open TemplatePart

theorem flatMap_pushLiteral (text : List Char) (parts : List TemplatePart) :
    (pushLiteral text parts).flatMap source =
    text ++ parts.flatMap source := by
  unfold pushLiteral
  split
  · simp_all
  · rfl

/-- What a scan returns and what it has read make up the text. -/
theorem flatMap_scanParts {mode : TemplateMode} {text : List Char}
    (h : scanParts mode text = .ok parts) :
    parts.flatMap source = mode.source ++ text := by
  induction text generalizing mode parts with
  | nil =>
    cases mode with
    | inLiteral read =>
      cases h
      exact flatMap_pushLiteral read []
    | inField => cases h
  | cons c _ ih =>
    cases mode with
    | inLiteral =>
      unfold scanParts at h
      split at h
      · rename_i hopen
        simp only [bind_eq_ok] at h
        obtain ⟨_, hlater, hparts⟩ := h
        cases hparts
        rw [flatMap_pushLiteral, ih hlater, hopen]
        rfl
      split at h
      · cases h
      split at h
      · cases h
      rw [ih h]
      simp [TemplateMode.source]
    | inField =>
      unfold scanParts at h
      split at h
      · rename_i hclose
        simp only [ok_rules] at h
        obtain ⟨_, _, hlater, hparts⟩ := h
        cases hparts
        rw [List.flatMap_cons, ih hlater, hclose]
        simp [source, TemplateMode.source]
      rw [ih h]
      simp [TemplateMode.source]

theorem expandPart_eq_ok {part : TemplatePart} {piece : List Char} :
    StringTemplate.expandPart values part = .ok piece ↔ part.Expands values piece := by
  cases part with
  | literal => simp [StringTemplate.expandPart, Expands, eq_comm]
  | field =>
    simp only [StringTemplate.expandPart, validateSubstitution, ok_rules, Expands,
      SafeSegment, Except.ok.injEq, not_or]
    constructor
    · rintro ⟨_, hvalue, hsafe, rfl⟩
      simpa using ⟨hvalue, hsafe⟩
    rintro ⟨hvalue, hsafe⟩
    exact ⟨_, hvalue, by simpa using hsafe, by simp⟩

/-- Every part expands exactly when the whole list does. -/
theorem exists_pieces : (∃ pieces, List.Forall₂ (Expands values) parts pieces) ↔
    ∀ part ∈ parts, ∃ piece, part.Expands values piece := by
  induction parts with
  | nil => simp
  | cons _ _ ih =>
    rw [List.forall_mem_cons, ← ih]
    constructor
    · rintro ⟨_, h⟩
      cases h with
      | cons hpart hrest => exact ⟨⟨_, hpart⟩, ⟨_, hrest⟩⟩
    rintro ⟨⟨piece, hpart⟩, ⟨pieces, hrest⟩⟩
    exact ⟨piece :: pieces, .cons hpart hrest⟩

theorem count_separators (h : List.Forall₂ (Expands values) parts pieces) :
    pieces.flatten.count '/' = (parts.flatMap literalText).count '/' := by
  induction h with
  | nil => rfl
  | @cons part piece _ _ hpart _ ih =>
    rw [List.flatten_cons, List.flatMap_cons, List.count_append, List.count_append, ih]
    cases part with
    | literal =>
      cases hpart
      rfl
    | field => simp [literalText, List.count_eq_zero.mpr hpart.2.2.1]

theorem expand_eq_ok {text : String} {template : StringTemplate}
    (hparts : template.parts = .ok parts) : template.expand values = .ok text ↔ ∃ pieces,
    List.Forall₂ (Expands values) parts pieces ∧
    String.ofList pieces.flatten = text := by
  simp [StringTemplate.expand, hparts, bind_eq_ok, mapM_eq_ok, expandPart_eq_ok]

/--
Templates cannot escape.  The parts of a valid template make up its text; it
expands exactly when every field has a safe value, piece by piece with every
`/` in a literal piece; and an expanded path is a canonical address whose
tenant and bucket have no `/`.
-/
theorem template_expansion_contained :
    (∀ template : StringTemplate, template.validate = .ok () → ∃ parts, template.parts = .ok parts ∧
    parts.flatMap TemplatePart.source = template.text.toList ∧
    ∀ values, ((∃ text, template.expand values = .ok text) ↔ ∀ name, .field name ∈ parts →
    ∃ value, values.get? (String.ofList name) = some (String.ofList value) ∧ SafeSegment value) ∧
    ∀ text, template.expand values = .ok text →
    text.toList.count '/' = (parts.flatMap TemplatePart.literalText).count '/' ∧
    ∃ pieces, text.toList = pieces.flatten ∧
    List.Forall₂ (TemplatePart.Expands values) parts pieces) ∧
    ∀ (template : PathTemplate) values path, template.expand values = .ok path →
    ObjectPath.new path.tenant path.bucket path.path = .ok path ∧
    '/' ∉ path.tenant.toList ∧ '/' ∉ path.bucket.toList := by
  constructor
  · intro template hvalid
    simp only [StringTemplate.validate, ok_rules] at hvalid
    obtain ⟨parts, hparts, _⟩ := hvalid
    have hscan := hparts
    simp only [StringTemplate.parts, ok_rules] at hscan
    refine ⟨parts, hparts, flatMap_scanParts hscan.2, fun values => ⟨?_, ?_⟩⟩
    · have hexpands : (∃ text, template.expand values = .ok text) ↔
          ∀ part ∈ parts, ∃ piece, part.Expands values piece := by
        rw [← exists_pieces]
        simp only [expand_eq_ok hparts]
        constructor
        · rintro ⟨_, pieces, h, _⟩
          exact ⟨pieces, h⟩
        rintro ⟨pieces, h⟩
        exact ⟨_, pieces, h, rfl⟩
      rw [hexpands]
      constructor
      · exact fun h name hname => h _ hname
      intro h part hpart
      cases part with
      | literal text => exact ⟨text, rfl⟩
      | field name => exact h name hpart
    · intro _ htext
      obtain ⟨pieces, hpieces, rfl⟩ := (expand_eq_ok hparts).mp htext
      rw [String.toList_ofList]
      exact ⟨count_separators hpieces, pieces, rfl, hpieces⟩
  · intro _ _ _ h
    simp only [PathTemplate.expand, bind_eq_ok] at h
    obtain ⟨_, _, _, _, _, _, hnew⟩ := h
    have hpath := hnew
    simp only [ObjectPath.new, ok_rules, Except.ok.injEq, not_or, Bool.not_eq_false,
      canonicalComponent, Bool.and_eq_true, Bool.not_eq_true', List.contains_eq_mem,
      decide_eq_false_iff_not] at hpath
    obtain ⟨⟨⟨⟨_, htenant⟩, _⟩, ⟨⟨_, hbucket⟩, _⟩, _⟩, rfl⟩ := hpath
    exact ⟨hnew, htenant, hbucket⟩

theorem template_expansion_contained_sample :
    let template : StringTemplate := ⟨"users/\x7bid\x7d"⟩
    template.expand (OrdMap.empty.insert "id" "7") = .ok "users/7" ∧
      "users/7".toList.count '/' = 1 ∧ ∃ parts, template.parts = .ok parts ∧
        parts.flatMap TemplatePart.source = template.text.toList := by
  obtain ⟨parts, hparts, hsource, _⟩ :=
    template_expansion_contained.1 ⟨"users/\x7bid\x7d"⟩ (by decide +kernel)
  exact ⟨by decide +kernel, by decide +kernel, parts, hparts, hsource⟩

end Keldra.AtomicProgram
